import Maple.ME.ScalarAnalysis.CRNode
import Maple.Lib.While

/-!
# Sums of chains of recurrences

`GetCRAddNode` merges constants, unfolds sums, adds what does not vary to the start of a recurrence
and adds recurrences position by position. The expression that the node is for has no entry in
`expr2CR` when it is called.
-/

namespace Maple
namespace CRNode

variable {Var : Type} (S : TypeSort Var)

/-- What `GetCRAddNode` finds in its operands: the result, sums from some position on, or the first
recurrence, with the nodes before and behind it. -/
inductive AddStep (Var : Type) where
  | ret (n : CRNode Var)
  | sums (front ns : List (CRNode Var))
  | recurrence (front coeffs after : List (CRNode Var))

/-- The part behind the merged constants, which are `front`. -/
def addRest (front ns : List (CRNode Var)) : AddStep Var :=
  match ns.dropWhile fun n => !n.isAdd with
  | [] =>
    match ns.dropWhile fun n => !n.isCR with
    | cr coeffs :: after => .recurrence (front ++ ns.takeWhile fun n => !n.isCR) coeffs after
    | _ => .ret (add (front ++ ns))
  | sums => .sums (front ++ ns.takeWhile fun n => !n.isAdd) sums

/-- `GetCRAddNode` up to the first other call. -/
def addStep (ns : List (CRNode Var)) : AddStep Var :=
  match ns with
  | [n] => .ret n
  | _ =>
    match S.sort ns with
    | const c :: ns =>
      match mergeConsts (· + ·) c ns with
      | (c, []) => .ret (const c)
      | (c, ns) =>
        if c = 0 then
          match ns with
          | [n] => .ret n
          | _ => addRest [] ns
        else addRest [const c] ns
    | ns => addRest [] ns

/-- The sums of the coefficients, computed by `getAdd`. -/
def sumCoeffs (getAdd : List (CRNode Var) → Outcome (CRNode Var)) :
    List (CRNode Var × CRNode Var) → Outcome (List (CRNode Var))
  | [] => .done []
  | (l, r) :: pairs =>
    (getAdd [l, r]).bind fun n => (sumCoeffs getAdd pairs).bind fun ns => .done (n :: ns)

/-- The zeros among the sums of the coefficients stand at the end, and nothing follows them. -/
def zerosAtEnd (sums rest : List (CRNode Var)) : Bool :=
  (sums.dropWhile fun n => !n.isZero).all isZero && (rest.isEmpty || sums.all fun n => !n.isZero)

/-- The coefficients that only one of the recurrences has. -/
def restCoeffs (lhs rhs : List (CRNode Var)) : List (CRNode Var) :=
  lhs.drop rhs.length ++ rhs.drop lhs.length

/-- `AddCRWithCR`. With `check` the call stops when it drops a coefficient in front of another
one. -/
def addCRWithCR (check : Bool) (getAdd : List (CRNode Var) → Outcome (CRNode Var))
    (lhs rhs : List (CRNode Var)) : Outcome (List (CRNode Var)) :=
  (sumCoeffs getAdd (lhs.zip rhs)).bind fun sums =>
    if check && !zerosAtEnd sums (restCoeffs lhs rhs) then .assertionFailed
    else .done (sums.filter (fun n => !n.isZero) ++ restCoeffs lhs rhs)

/-- The loop that adds the recurrences behind the first one. With `check` it stops instead of
returning a recurrence without a coefficient. -/
def mergeRecurrences (check : Bool) (getAdd : List (CRNode Var) → Outcome (CRNode Var)) :
    List (CRNode Var) → List (CRNode Var) → Outcome (CRNode Var)
  | lhs, [] => .done (cr lhs)
  | lhs, cr rhs :: after =>
    (addCRWithCR check getAdd lhs rhs).bind fun sum =>
      match after with
      | [] =>
        match sum with
        | [] => if check then .assertionFailed else .done (cr [])
        | [n] => .done n
        | _ => .done (cr sum)
      | _ => mergeRecurrences check getAdd sum after
  | lhs, after => .done (add (cr lhs :: after))

def getCRAddNode (check : Bool) : Nat → List (CRNode Var) → Outcome (CRNode Var)
  | 0, _ => .outOfFuel
  | _ + 1, [] => .assertionFailed
  | fuel + 1, ns =>
    match addStep S ns with
    | .ret n => .done n
    | .sums front ns =>
      (unfoldParts addOpnds fuel ns).bind fun ns => getCRAddNode check fuel (front ++ ns)
    | .recurrence [] coeffs after =>
      mergeRecurrences check (getCRAddNode check fuel) coeffs after
    | .recurrence _ [] _ => .assertionFailed
    | .recurrence front (c :: coeffs) after =>
      (getCRAddNode check fuel (front ++ [c])).bind fun start =>
        match after with
        | [] => .done (cr (start :: coeffs))
        | _ => mergeRecurrences check (getCRAddNode check fuel) (start :: coeffs) after

/-! ### One step -/

mutual

/-- A bound for the work on a node, which no step increases: sums and what stands in them count as
much. -/
def weight : CRNode Var → Nat
  | add opnds => weights opnds
  | cr opnds => 1 + weights opnds
  | _ => 1

def weights : List (CRNode Var) → Nat
  | [] => 0
  | n :: ns => weight n + weights ns

end

mutual

/-- The number of sums that are not parts of another kind of node. -/
def addCount : CRNode Var → Nat
  | add opnds => 1 + addCounts opnds
  | _ => 0

def addCounts : List (CRNode Var) → Nat
  | [] => 0
  | n :: ns => addCount n + addCounts ns

end

lemma weights_eq_sum (ns : List (CRNode Var)) : weights ns = (ns.map weight).sum := by
  induction ns with
  | nil => rw [weights, List.map_nil, List.sum_nil]
  | cons n ns ih => rw [weights, ih, List.map_cons, List.sum_cons]

lemma addCounts_eq_sum (ns : List (CRNode Var)) : addCounts ns = (ns.map addCount).sum := by
  induction ns with
  | nil => rw [addCounts, List.map_nil, List.sum_nil]
  | cons n ns ih => rw [addCounts, ih, List.map_cons, List.sum_cons]

@[simp] lemma weights_nil : weights ([] : List (CRNode Var)) = 0 := by simp [weights_eq_sum]

@[simp] lemma weights_cons (n : CRNode Var) (ns : List (CRNode Var)) :
    weights (n :: ns) = weight n + weights ns := by simp [weights_eq_sum]

@[simp] lemma weights_append (ns ms : List (CRNode Var)) :
    weights (ns ++ ms) = weights ns + weights ms := by simp [weights_eq_sum]

@[simp] lemma addCounts_append (ns ms : List (CRNode Var)) :
    addCounts (ns ++ ms) = addCounts ns + addCounts ms := by simp [addCounts_eq_sum]

@[simp] lemma weight_const (c : Int) : weight (const c : CRNode Var) = 1 := by simp [weight]

@[simp] lemma weight_add (ns : List (CRNode Var)) : weight (add ns) = weights ns := by rw [weight]

@[simp] lemma weight_cr (ns : List (CRNode Var)) : weight (cr ns) = 1 + weights ns := by rw [weight]

@[simp] lemma addCount_const (c : Int) : addCount (const c : CRNode Var) = 0 := by simp [addCount]

@[simp] lemma addCount_add (ns : List (CRNode Var)) : addCount (add ns) = 1 + addCounts ns := by
  rw [addCount]

lemma Merges.weights_le {op : Int → Int → Int} {unit : Int} {ns ms : List (CRNode Var)}
    (h : Merges op unit ns ms) : weights ms ≤ weights ns := by
  rw [weights_eq_sum, weights_eq_sum]
  exact h.sum_map_le weight_const

lemma Merges.addCounts_le {op : Int → Int → Int} {unit : Int} {ns ms : List (CRNode Var)}
    (h : Merges op unit ns ms) : addCounts ms ≤ addCounts ns := by
  rw [addCounts_eq_sum, addCounts_eq_sum]
  exact h.sum_map_le addCount_const

/-- What a step says about its operands. -/
def AddStep.Correct (ns : List (CRNode Var)) : AddStep Var → Prop
  | .ret n => ∃ ms, Merges (· + ·) 0 ns ms ∧ (ms = [n] ∨ ms ≠ [] ∧ n = add ms)
  | .sums front ms => Merges (· + ·) 0 ns (front ++ ms) ∧ ∃ opnds ms', ms = add opnds :: ms'
  | .recurrence front coeffs after => Merges (· + ·) 0 ns (front ++ cr coeffs :: after)

lemma exists_of_dropWhile_ne_nil {p : CRNode Var → Bool} {ns : List (CRNode Var)}
    (h : ns.dropWhile (fun n => !p n) ≠ []) :
    ∃ n after, ns.dropWhile (fun n => !p n) = n :: after ∧ p n := by
  cases hdrop : ns.dropWhile fun n => !p n with
  | nil => exact absurd hdrop h
  | cons n after =>
    have hn := List.head_dropWhile_not (fun n => !p n) (l := ns) h
    simp only [hdrop, List.head_cons, Bool.not_eq_false'] at hn
    exact ⟨n, after, rfl, hn⟩

lemma addRest_correct {ns : List (CRNode Var)} {front ms : List (CRNode Var)}
    (h : Merges (· + ·) 0 ns (front ++ ms)) (hne : front ++ ms ≠ []) :
    (addRest front ms).Correct ns := by
  unfold addRest
  split
  case h_1 =>
    split
    case h_1 coeffs after hcr =>
      have hsplit := List.takeWhile_append_dropWhile (p := fun n => !n.isCR) (l := ms)
      rw [hcr] at hsplit
      simpa only [AddStep.Correct, List.append_assoc, hsplit] using h
    case h_2 => exact ⟨front ++ ms, h, Or.inr ⟨hne, rfl⟩⟩
  case h_2 hne =>
    refine ⟨?_, ?_⟩
    · rw [List.append_assoc, List.takeWhile_append_dropWhile]
      exact h
    · obtain ⟨n, after, hdrop, hn⟩ := exists_of_dropWhile_ne_nil hne
      cases n <;> simp [isAdd] at hn
      exact ⟨_, _, hdrop⟩

lemma addStep_correct {ns : List (CRNode Var)} (hne : ns ≠ []) : (addStep S ns).Correct ns := by
  have hsort : Merges (· + ·) 0 ns (S.sort ns) := .perm (S.perm ns)
  have hsort_ne : S.sort ns ≠ [] := fun h => hne (List.nil_perm.mp (h ▸ S.perm ns))
  unfold addStep
  split
  case h_1 n => exact ⟨[n], .refl _, Or.inl rfl⟩
  case h_2 =>
    split
    case h_1 c ms hms =>
      rw [hms] at hsort
      have hmerge := hsort.trans (mergeConsts_merges (· + ·) 0 c ms)
      split
      case h_1 d hd =>
        rw [hd] at hmerge
        exact ⟨[const d], hmerge, Or.inl rfl⟩
      case h_2 d ms' hms' hd =>
        rw [hd] at hmerge
        split_ifs with hzero
        · subst hzero
          have hrest := hmerge.trans (.unit ms')
          split
          case h_1 => exact ⟨[_], hrest, Or.inl rfl⟩
          case h_2 => exact addRest_correct hrest hms'
        · exact addRest_correct hmerge (by simp)
    case h_2 => exact addRest_correct hsort hsort_ne

lemma value_of_ret {ns : List (CRNode Var)} {n : CRNode Var} (h : (AddStep.ret n).Correct ns)
    (env : Var → Int) (i : Nat) : value env i n = sumOf env i ns := by
  obtain ⟨ms, hmerge, rfl | ⟨-, rfl⟩⟩ := h
  · rw [← hmerge.sumOf_eq env i]
    simp
  · rw [value_add, hmerge.sumOf_eq env i]

lemma weight_of_ret {ns : List (CRNode Var)} {n : CRNode Var} (h : (AddStep.ret n).Correct ns) :
    weight n ≤ weights ns := by
  obtain ⟨ms, hmerge, rfl | ⟨-, rfl⟩⟩ := h
  · simpa using hmerge.weights_le
  · simpa using hmerge.weights_le

lemma addOpnds_eq_some_iff {n : CRNode Var} {opnds : List (CRNode Var)} :
    addOpnds n = some opnds ↔ n = add opnds := by
  cases n <;> simp [addOpnds]

lemma sumOf_unfoldParts {fuel : Nat} {ns ms : List (CRNode Var)}
    (h : unfoldParts addOpnds fuel ns = .done ms) (env : Var → Int) (i : Nat) :
    sumOf env i ms = sumOf env i ns := by
  refine unfoldParts_invariant (fun ls => sumOf env i ls = sumOf env i ns) ?_ rfl h
  intro n opnds ls hpart hls
  rw [addOpnds_eq_some_iff.mp hpart, sumOf_cons, value_add] at hls
  rw [sumOf_append, ← hls, add_comm]

/-! ### Values -/

/-- A function that returns the sum of its operands. -/
def ReturnsSum (getAdd : List (CRNode Var) → Outcome (CRNode Var)) : Prop :=
  ∀ ns n, getAdd ns = .done n → ∀ env i, value env i n = sumOf env i ns

lemma sumCoeffs_correct {getAdd : List (CRNode Var) → Outcome (CRNode Var)}
    (hadd : ReturnsSum getAdd) {pairs : List (CRNode Var × CRNode Var)} {sums : List (CRNode Var)}
    (h : sumCoeffs getAdd pairs = .done sums) (env : Var → Int) (i : Nat) :
    sums.map (value env i) = pairs.map fun p => value env i p.1 + value env i p.2 := by
  induction pairs generalizing sums with
  | nil =>
    cases h
    rfl
  | cons p pairs ih =>
    obtain ⟨n, hn, h⟩ := Outcome.bind_eq_done_iff.mp h
    obtain ⟨ns, hns, h⟩ := Outcome.bind_eq_done_iff.mp h
    cases h
    rw [List.map_cons, List.map_cons, ih hns, hadd _ n hn env i]
    simp

lemma value_of_isZero {n : CRNode Var} (h : n.isZero) (env : Var → Int) (i : Nat) :
    value env i n = 0 := by
  cases n <;> simp [isZero] at h
  simp [h]

lemma newtonSeries_of_zerosAtEnd {sums rest : List (CRNode Var)} (h : zerosAtEnd sums rest)
    (env : Var → Int) (i : Nat) :
    newtonSeries i ((sums.filter (fun n => !n.isZero) ++ rest).map (value env i)) =
      newtonSeries i ((sums ++ rest).map (value env i)) := by
  obtain ⟨hzero, hrest⟩ : (sums.dropWhile fun n => !n.isZero).all isZero ∧
      (rest.isEmpty ∨ sums.all fun n => !n.isZero) := by
    simpa [zerosAtEnd] using h
  rcases hrest with hrest | hall
  · obtain rfl : rest = [] := by simpa using hrest
    let kept := sums.takeWhile fun n => !n.isZero
    let zeros := sums.dropWhile fun n => !n.isZero
    have hsplit : kept ++ zeros = sums := List.takeWhile_append_dropWhile
    have hkept : kept.filter (fun n => !n.isZero) = kept :=
      List.filter_eq_self.mpr fun n hn => (List.all_eq_true.mp List.all_takeWhile) n hn
    have hzeros : zeros.filter (fun n => !n.isZero) = [] := by
      rw [List.filter_eq_nil_iff]
      intro n hn
      simp [List.all_eq_true.mp hzero n hn]
    have hvalues (c : Int) (hc : c ∈ zeros.map (value env i)) : c = 0 := by
      obtain ⟨n, hn, rfl⟩ := List.mem_map.mp hc
      exact value_of_isZero (List.all_eq_true.mp hzero n hn) env i
    rw [← hsplit, List.filter_append, hkept, hzeros, List.append_nil, List.append_nil,
      List.append_nil, List.map_append, newtonSeries, newtonSeries, newtonFrom_append,
      newtonFrom_zeros i _ hvalues, add_zero]
  · rw [List.filter_eq_self.mpr]
    simpa using hall

lemma addCRWithCR_correct {getAdd : List (CRNode Var) → Outcome (CRNode Var)}
    (hadd : ReturnsSum getAdd) {lhs rhs sum : List (CRNode Var)}
    (h : addCRWithCR true getAdd lhs rhs = .done sum) (env : Var → Int) (i : Nat) :
    value env i (cr sum) = value env i (cr lhs) + value env i (cr rhs) := by
  obtain ⟨sums, hsums, h⟩ := Outcome.bind_eq_done_iff.mp h
  simp only [Bool.true_and] at h
  split_ifs at h with hcheck
  cases h
  have hvalues := sumCoeffs_correct hadd hsums env i
  rw [value_cr, newtonSeries_of_zerosAtEnd (by simpa using hcheck), value_cr, value_cr]
  have hzip : List.map (fun p : CRNode Var × CRNode Var => value env i p.1 + value env i p.2)
      (lhs.zip rhs) =
      List.zipWith (· + ·) (lhs.map (value env i)) (rhs.map (value env i)) := by
    rw [List.zip, List.map_zipWith, List.zipWith_map]
  rw [restCoeffs, List.map_append, List.map_append, hvalues, hzip, List.map_drop, List.map_drop]
  have hlengths : rhs.length = (rhs.map (value env i)).length ∧
      lhs.length = (lhs.map (value env i)).length := by simp
  conv_lhs => rw [hlengths.1, hlengths.2]
  exact newtonFrom_zipWith_add i 0 _ _

lemma mergeRecurrences_correct {getAdd : List (CRNode Var) → Outcome (CRNode Var)}
    (hadd : ReturnsSum getAdd) {lhs after : List (CRNode Var)} {n : CRNode Var}
    (h : mergeRecurrences true getAdd lhs after = .done n) (env : Var → Int) (i : Nat) :
    value env i n = value env i (cr lhs) + sumOf env i after := by
  fun_induction mergeRecurrences true getAdd lhs after with
  | case1 lhs =>
    cases h
    simp
  | case2 lhs rhs after ih =>
    obtain ⟨sum, hsum, h⟩ := Outcome.bind_eq_done_iff.mp h
    have hvalue := addCRWithCR_correct hadd hsum env i
    rw [sumOf_cons, ← add_assoc, ← hvalue]
    split at h
    · rw [sumOf_nil, add_zero]
      split at h
      · cases h
      · cases h
        simp [newtonSeries, newtonFrom]
      · cases h
        rfl
    · exact ih sum h
  | case3 lhs after hnil hcr =>
    cases h
    simp

lemma getCRAddNode_returnsSum (fuel : Nat) : ReturnsSum (getCRAddNode S true fuel) := by
  induction fuel with
  | zero =>
    intro ns n h
    cases h
  | succ fuel ih =>
    intro ns n h env i
    cases ns with
    | nil => cases h
    | cons m ms =>
      have hstep := addStep_correct S (List.cons_ne_nil m ms)
      unfold getCRAddNode at h
      split at h
      case h_1 r hr =>
        rw [hr] at hstep
        cases h
        exact value_of_ret hstep env i
      case h_2 front sums hr =>
        rw [hr] at hstep
        obtain ⟨l, hl, h⟩ := Outcome.bind_eq_done_iff.mp h
        rw [ih _ n h env i, sumOf_append, sumOf_unfoldParts hl env i, ← sumOf_append,
          hstep.1.sumOf_eq]
      case h_3 coeffs after hr =>
        rw [hr] at hstep
        rw [mergeRecurrences_correct ih h env i, ← hstep.sumOf_eq env i]
        simp
      case h_4 => cases h
      case h_5 front c coeffs after _ hr =>
        rw [hr] at hstep
        obtain ⟨start, hstart, h⟩ := Outcome.bind_eq_done_iff.mp h
        have hcr : value env i (cr (start :: coeffs)) = sumOf env i front +
            value env i (cr (c :: coeffs)) := by
          rw [value_cr, value_cr, List.map_cons, List.map_cons, newtonSeries_cons,
            newtonSeries_cons, ih _ start hstart env i, sumOf_append, sumOf_cons, sumOf_nil]
          ring
        rw [← hstep.sumOf_eq env i, sumOf_append, sumOf_cons]
        split at h
        · cases h
          rw [hcr, sumOf_nil, add_zero]
        · rw [mergeRecurrences_correct ih h env i, hcr, add_assoc]

/-! ### The code and the run with checks -/

section Unchecked

variable {f g : List (CRNode Var) → Outcome (CRNode Var)}
variable (hfg : ∀ ns n, f ns = .done n → g ns = .done n)

include hfg

lemma sumCoeffs_unchecked {pairs : List (CRNode Var × CRNode Var)} {sums : List (CRNode Var)}
    (h : sumCoeffs f pairs = .done sums) : sumCoeffs g pairs = .done sums := by
  induction pairs generalizing sums with
  | nil => exact h
  | cons p pairs ih =>
    obtain ⟨n, hn, h⟩ := Outcome.bind_eq_done_iff.mp h
    obtain ⟨ns, hns, h⟩ := Outcome.bind_eq_done_iff.mp h
    simp [sumCoeffs, hfg _ _ hn, ih hns, h]

lemma addCRWithCR_unchecked {lhs rhs sum : List (CRNode Var)}
    (h : addCRWithCR true f lhs rhs = .done sum) : addCRWithCR false g lhs rhs = .done sum := by
  obtain ⟨sums, hsums, h⟩ := Outcome.bind_eq_done_iff.mp h
  simp only [Bool.true_and] at h
  split_ifs at h
  simp only [addCRWithCR, sumCoeffs_unchecked hfg hsums, Outcome.bind_done, Bool.false_and,
    Bool.false_eq_true, ↓reduceIte]
  exact h

lemma mergeRecurrences_unchecked {lhs after : List (CRNode Var)} {n : CRNode Var}
    (h : mergeRecurrences true f lhs after = .done n) :
    mergeRecurrences false g lhs after = .done n := by
  fun_induction mergeRecurrences true f lhs after with
  | case1 lhs => exact h
  | case2 lhs rhs after ih =>
    obtain ⟨sum, hsum, h⟩ := Outcome.bind_eq_done_iff.mp h
    rw [mergeRecurrences, addCRWithCR_unchecked hfg hsum, Outcome.bind_done]
    split at h
    · split at h
      · cases h
      · exact h
      · exact h
    · exact ih sum h
  | case3 lhs after hnil hcr =>
    cases after with
    | nil => exact absurd rfl hnil
    | cons m ms => cases m <;> first | exact h | exact absurd rfl (hcr _ _)

end Unchecked

lemma getCRAddNode_unchecked {fuel : Nat} {ns : List (CRNode Var)} {n : CRNode Var}
    (h : getCRAddNode S true fuel ns = .done n) : getCRAddNode S false fuel ns = .done n := by
  induction fuel generalizing ns n with
  | zero => cases h
  | succ fuel ih =>
    cases ns with
    | nil => cases h
    | cons m ms =>
      unfold getCRAddNode at h ⊢
      split at h
      case h_1 r hr => exact h
      case h_2 front sums hr =>
        obtain ⟨l, hl, h⟩ := Outcome.bind_eq_done_iff.mp h
        simp only [hl, Outcome.bind_done]
        exact ih h
      case h_3 coeffs after hr =>
        exact mergeRecurrences_unchecked (fun _ _ => ih) h
      case h_4 => cases h
      case h_5 front c coeffs after hne hr =>
        obtain ⟨start, hstart, h⟩ := Outcome.bind_eq_done_iff.mp h
        simp only [ih hstart, Outcome.bind_done]
        split at h
        · exact h
        · exact mergeRecurrences_unchecked (fun _ _ => ih) h

/-! ### Termination -/

lemma weights_unfoldParts {fuel : Nat} {ns ms : List (CRNode Var)}
    (h : unfoldParts addOpnds fuel ns = .done ms) : weights ms = weights ns := by
  refine unfoldParts_invariant (fun ls => weights ls = weights ns) ?_ rfl h
  intro n opnds ls hpart hls
  rw [addOpnds_eq_some_iff.mp hpart, weights_cons, weight_add] at hls
  rw [weights_append, ← hls, Nat.add_comm]

lemma unfoldSums_settles (opnds ns : List (CRNode Var)) :
    ∃ o, Outcome.Settles (unfoldParts addOpnds · (add opnds :: ns)) o ∧
      ∀ ms, o = .done ms → weights ms = weights (add opnds :: ns) ∧
        addCounts ms < addCounts (add opnds :: ns) := by
  obtain ⟨o, ho, hms⟩ := unfoldParts_settles addOpnds addCount
    (by
      intro n opnds h
      rw [addOpnds_eq_some_iff.mp h, addCount_add, addCounts_eq_sum]
      omega) (add opnds :: ns)
  refine ⟨o, ho, ?_⟩
  rintro ms rfl
  obtain ⟨-, bound, hbound⟩ := id ho
  refine ⟨weights_unfoldParts (hbound bound (le_refl _)), ?_⟩
  rw [addCounts_eq_sum, addCounts_eq_sum]
  exact (hms ms rfl).2 _ _ rfl (by simp [addOpnds])

/-- The calls for operands that weigh less than `bound` end, with a node that weighs no more. -/
def SettlesBelow (run : Nat → List (CRNode Var) → Outcome (CRNode Var)) (bound : Nat) : Prop :=
  ∀ ns, weights ns < bound → ∃ o, Outcome.Settles (run · ns) o ∧
    ∀ n, o = .done n → weight n ≤ weights ns

section Settles

variable {run : Nat → List (CRNode Var) → Outcome (CRNode Var)} {bound : Nat}
variable (hrun : SettlesBelow run bound) (check : Bool)

include hrun

lemma sumCoeffs_settles {lhs rhs : List (CRNode Var)} (h : weights lhs + weights rhs < bound) :
    ∃ o, Outcome.Settles (fun fuel => sumCoeffs (run fuel) (lhs.zip rhs)) o ∧
      ∀ sums, o = .done sums →
        weights sums + weights (restCoeffs lhs rhs) ≤ weights lhs + weights rhs := by
  induction lhs generalizing rhs with
  | nil => exact ⟨.done [], Outcome.settles_const (by simp), by rintro sums ⟨⟩; simp [restCoeffs]⟩
  | cons l lhs ih =>
    cases rhs with
    | nil => exact ⟨.done [], Outcome.settles_const (by simp), by rintro sums ⟨⟩; simp [restCoeffs]⟩
    | cons r rhs =>
      simp only [weights_cons] at h
      obtain ⟨o, ho, hweight⟩ := hrun [l, r] (by simp; omega)
      obtain ⟨o', ho', hweights⟩ := ih (show weights lhs + weights rhs < bound by omega)
      cases o with
      | outOfFuel => exact absurd rfl ho.1
      | assertionFailed => exact ⟨_, ho.bind_assertionFailed _, by simp⟩
      | done n =>
        cases o' with
        | outOfFuel => exact absurd rfl ho'.1
        | assertionFailed =>
          exact ⟨_, ho.bind (ho'.bind_assertionFailed _), by simp⟩
        | done ns =>
          refine ⟨_, ho.bind (ho'.bind (Outcome.settles_const (o := .done (n :: ns)) (by simp))), ?_⟩
          rintro sums ⟨⟩
          have h1 := hweight n rfl
          have h2 := hweights ns rfl
          simp only [restCoeffs, weights_cons, weights_nil, List.length_cons,
            List.drop_succ_cons] at h1 h2 ⊢
          omega

omit hrun in
lemma weights_filter_le (p : CRNode Var → Bool) (ns : List (CRNode Var)) :
    weights (ns.filter p) ≤ weights ns := by
  induction ns with
  | nil => simp
  | cons n ns ih =>
    rw [List.filter_cons]
    split_ifs
    · simp only [weights_cons]
      omega
    · simp only [weights_cons]
      omega

lemma addCRWithCR_settles {lhs rhs : List (CRNode Var)} (h : weights lhs + weights rhs < bound) :
    ∃ o, Outcome.Settles (fun fuel => addCRWithCR check (run fuel) lhs rhs) o ∧
      ∀ sum, o = .done sum → weights sum ≤ weights lhs + weights rhs := by
  obtain ⟨o, ho, hweights⟩ := sumCoeffs_settles hrun h
  cases o with
  | outOfFuel => exact absurd rfl ho.1
  | assertionFailed => exact ⟨_, ho.bind_assertionFailed _, by simp⟩
  | done sums =>
    refine ⟨_, ho.bind (Outcome.settles_const ?_), ?_⟩
    · split_ifs <;> simp
    · intro sum hsum
      split_ifs at hsum
      cases hsum
      have h1 := hweights sums rfl
      have h2 := weights_filter_le (fun n => !n.isZero) sums
      simp only [weights_append]
      omega

lemma mergeRecurrences_settles {lhs after : List (CRNode Var)}
    (h : 1 + weights lhs + weights after ≤ bound) :
    ∃ o, Outcome.Settles (fun fuel => mergeRecurrences check (run fuel) lhs after) o ∧
      ∀ n, o = .done n → weight n ≤ 1 + weights lhs + weights after := by
  induction after generalizing lhs with
  | nil => exact ⟨.done (cr lhs), Outcome.settles_const (by simp), by rintro n ⟨⟩; simp⟩
  | cons m after ih =>
    by_cases hm : m.isCR
    · cases m <;> simp [isCR] at hm
      rename_i rhs
      simp only [weights_cons, weight_cr] at h
      obtain ⟨o, ho, hweights⟩ := addCRWithCR_settles hrun check
        (show weights lhs + weights rhs < bound by omega)
      cases o with
      | outOfFuel => exact absurd rfl ho.1
      | assertionFailed => exact ⟨_, ho.bind_assertionFailed _, by simp⟩
      | done sum =>
        have hsum := hweights sum rfl
        cases after with
        | nil =>
          refine ⟨_, ho.bind (Outcome.settles_const ?_), ?_⟩
          · split
            · split_ifs <;> simp
            · simp
            · simp
          · intro n hn
            split at hn
            · split_ifs at hn
              cases hn
              simp only [weight_cr, weights_cons, weights_nil]
              omega
            · cases hn
              simp only [weights_cons, weights_nil, weight_cr] at hsum ⊢
              omega
            · cases hn
              simp only [weight_cr, weights_cons, weights_nil]
              omega
        | cons m' after =>
          obtain ⟨o', ho', hweight⟩ := ih
            (show 1 + weights sum + weights (m' :: after) ≤ bound by omega)
          refine ⟨o', ho.bind ho', ?_⟩
          intro n hn
          have := hweight n hn
          simp only [weights_cons, weight_cr] at this ⊢
          omega
    · refine ⟨.done (add (cr lhs :: m :: after)), ?_, ?_⟩
      · have hstop (fuel : Nat) : mergeRecurrences check (run fuel) lhs (m :: after) =
            .done (add (cr lhs :: m :: after)) := by
          cases m <;> simp [isCR] at hm <;> rfl
        simp only [hstop]
        exact Outcome.settles_const (by simp)
      · rintro n ⟨⟩
        simp

end Settles

/-- A call that ends with a node that weighs at most `bound`. -/
def SettlesWithin (run : Nat → Outcome (CRNode Var)) (bound : Nat) : Prop :=
  ∃ o, Outcome.Settles run o ∧ ∀ n, o = .done n → weight n ≤ bound

lemma getCRAddNode_settles_sums {check : Bool} {m : CRNode Var}
    {ms front sums : List (CRNode Var)} (hr : addStep S (m :: ms) = .sums front sums)
    (ih : ∀ ns, weights ns ≤ weights (m :: ms) → addCounts ns < addCounts (m :: ms) →
      SettlesWithin (getCRAddNode S check · ns) (weights (m :: ms))) :
    SettlesWithin (getCRAddNode S check · (m :: ms)) (weights (m :: ms)) := by
  have hstep := addStep_correct S (List.cons_ne_nil m ms)
  rw [hr] at hstep
  obtain ⟨hreplaces, opnds, sums', rfl⟩ := hstep
  obtain ⟨o, ho, hsums⟩ := unfoldSums_settles opnds sums'
  have hcall : Outcome.Settles (fun fuel => getCRAddNode S check (fuel + 1) (m :: ms)) =
      Outcome.Settles (fun fuel => (unfoldParts addOpnds fuel (add opnds :: sums')).bind fun ns =>
        getCRAddNode S check fuel (front ++ ns)) := by
    simp only [getCRAddNode, hr]
  cases o with
  | outOfFuel => exact absurd rfl ho.1
  | assertionFailed => exact ⟨_, .of_succ (hcall ▸ ho.bind_assertionFailed _), by simp⟩
  | done l =>
    obtain ⟨hweight, hfewer⟩ := hsums l rfl
    have hweights := hreplaces.weights_le
    have hcounts := hreplaces.addCounts_le
    rw [weights_append] at hweights
    rw [addCounts_append] at hcounts
    obtain ⟨o, ho', hn⟩ := ih (front ++ l) (by rw [weights_append]; omega)
      (by rw [addCounts_append]; omega)
    exact ⟨o, .of_succ (hcall ▸ ho.bind ho'), hn⟩

lemma getCRAddNode_settles_recurrence {check : Bool} {m : CRNode Var}
    {ms front coeffs after : List (CRNode Var)}
    (hr : addStep S (m :: ms) = .recurrence front coeffs after)
    (hrun : SettlesBelow (getCRAddNode S check) (weights (m :: ms))) :
    SettlesWithin (getCRAddNode S check · (m :: ms)) (weights (m :: ms)) := by
  have hstep := addStep_correct S (List.cons_ne_nil m ms)
  rw [hr] at hstep
  have hle := hstep.weights_le
  rw [weights_append, weights_cons, weight_cr] at hle
  cases front with
  | nil =>
    rw [weights_nil] at hle
    obtain ⟨o, ho, hn⟩ := mergeRecurrences_settles hrun check
      (show 1 + weights coeffs + weights after ≤ weights (m :: ms) by omega)
    refine ⟨o, .of_succ ?_, ?_⟩
    · simp only [getCRAddNode, hr]
      exact ho
    · intro n h
      have := hn n h
      omega
  | cons f front =>
    cases coeffs with
    | nil =>
      refine ⟨.assertionFailed, .of_succ ?_, by simp⟩
      simp only [getCRAddNode, hr]
      exact Outcome.settles_const (by simp)
    | cons c coeffs =>
      obtain ⟨o, ho, hn⟩ := hrun (f :: front ++ [c]) (by
        simp only [weights_append, weights_cons, weights_nil] at hle ⊢
        omega)
      have hcall : Outcome.Settles (fun fuel => getCRAddNode S check (fuel + 1) (m :: ms)) =
          Outcome.Settles (fun fuel => (getCRAddNode S check fuel (f :: front ++ [c])).bind
            fun start => match after with
              | [] => .done (cr (start :: coeffs))
              | _ => mergeRecurrences check (getCRAddNode S check fuel) (start :: coeffs)
                after) := by
        simp only [getCRAddNode, hr]
      cases o with
      | outOfFuel => exact absurd rfl ho.1
      | assertionFailed => exact ⟨_, .of_succ (hcall ▸ ho.bind_assertionFailed _), by simp⟩
      | done start =>
        have hweight := hn start rfl
        simp only [weights_append, weights_cons, weights_nil] at hweight hle
        cases after with
        | nil =>
          refine ⟨.done (cr (start :: coeffs)),
            .of_succ (hcall ▸ ho.bind (Outcome.settles_const (by simp))), ?_⟩
          rintro _ ⟨⟩
          simp only [weight_cr, weights_cons, weights_nil] at hle ⊢
          omega
        | cons a after =>
          obtain ⟨o, ho', hn⟩ := mergeRecurrences_settles hrun check
            (show 1 + weights (start :: coeffs) + weights (a :: after) ≤ weights (m :: ms) by
              simp only [weights_cons] at hle ⊢
              omega)
          refine ⟨o, .of_succ (hcall ▸ ho.bind ho'), ?_⟩
          intro n h
          have := hn n h
          simp only [weights_cons] at this hle ⊢
          omega

lemma getCRAddNode_settles (check : Bool) (ns : List (CRNode Var)) :
    SettlesWithin (getCRAddNode S check · ns) (weights ns) := by
  -- the weight decreases in the calls for recurrences, the number of sums when they are unfolded
  induction hw : weights ns using Nat.strong_induction_on generalizing ns with
  | _ w ihw =>
  induction hk : addCounts ns using Nat.strong_induction_on generalizing ns with
  | _ k ihk =>
  subst hw hk
  cases ns with
  | nil => exact ⟨.assertionFailed, .of_succ (Outcome.settles_const (by simp)), by simp⟩
  | cons m ms =>
    cases hr : addStep S (m :: ms) with
    | ret n =>
      have hstep := addStep_correct S (List.cons_ne_nil m ms)
      rw [hr] at hstep
      refine ⟨.done n, .of_succ ?_, ?_⟩
      · simp only [getCRAddNode, hr]
        exact Outcome.settles_const (by simp)
      · rintro _ ⟨⟩
        exact weight_of_ret hstep
    | sums front sums =>
      apply getCRAddNode_settles_sums S hr
      intro ns hns hcount
      rcases Nat.lt_or_ge (weights ns) (weights (m :: ms)) with h | h
      · obtain ⟨o, ho, hn⟩ := ihw _ h ns rfl
        exact ⟨o, ho, fun n hdone => (hn n hdone).trans hns⟩
      · exact ihk _ hcount ns (le_antisymm hns h) rfl
    | recurrence front coeffs after =>
      apply getCRAddNode_settles_recurrence S hr
      intro ns hns
      exact ihw _ hns ns rfl

/-- The computation of the sum passes the checks: a coefficient is dropped only at the end of a
recurrence, and no recurrence without a coefficient is returned. -/
def KeepsPositions (ns : List (CRNode Var)) : Prop :=
  ∃ n, Outcome.Settles (getCRAddNode S true · ns) (.done n)

lemma KeepsPositions.sum_eq {ns : List (CRNode Var)} (h : KeepsPositions S ns) :
    ∃ n, Outcome.Settles (getCRAddNode S false · ns) (.done n) ∧
      ∀ env i, value env i n = sumOf env i ns := by
  obtain ⟨n, -, bound, hbound⟩ := h
  refine ⟨n, ⟨by simp, bound, fun fuel hfuel => getCRAddNode_unchecked S (hbound fuel hfuel)⟩, ?_⟩
  exact getCRAddNode_returnsSum S bound ns n (hbound bound (le_refl _))

end CRNode
end Maple
