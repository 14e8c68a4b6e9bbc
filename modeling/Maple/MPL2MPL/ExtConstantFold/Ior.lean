import Maple.IR.PrimType
import Maple.Lib.Int64Cast
import Maple.Lib.While
import Mathlib.Data.List.Destutter

/-!
# Equality tests joined by or

`ExtConstantFold::ExtFoldIor` (`ext_constantfold.cpp`): `x == c || x == c + 1 || ... || x == c + k`
becomes `le (x - c), k`. The operands of the `cior` and `lior` nodes are collected with a queue, the
constants are compared as `int64`, and the subtraction and the comparison have types that depend on
the type of the node only.
-/

namespace Maple
namespace ExtConstantFold

inductive IorOp where
  | cior | lior
  deriving DecidableEq, Repr

/-- Expressions as far as `ExtFoldIor` looks at them: `read` is a `dread` or `iread`, `constval` an
integer constant with its value, `other` any other expression. -/
inductive BaseNode (ξ ω : Type*) where
  | read (x : ξ)
  | constval (primType : PrimType) (value : Int)
  | sub (primType : PrimType) (opnd0 opnd1 : BaseNode ξ ω)
  | eq (opnd0 opnd1 : BaseNode ξ ω)
  | le (opndType : PrimType) (opnd0 opnd1 : BaseNode ξ ω)
  | ior (op : IorOp) (primType : PrimType) (opnd0 opnd1 : BaseNode ξ ω)
  | other (e : ω)
  deriving DecidableEq

variable {ξ ω : Type*}

namespace BaseNode

def isRead : BaseNode ξ ω → Bool
  | read _ => true
  | _ => false

/-- The number of rounds that the loop needs at most. -/
def count : BaseNode ξ ω → Nat
  | ior _ _ opnd0 opnd1 => opnd0.count + opnd1.count + 1
  | _ => 1

end BaseNode

def getExtValue (v : Int) : Int64 := Int64.ofInt v

/-! ### The loop -/

/-- The variables of the loop. -/
structure IorState (ξ ω : Type*) where
  operands : List (BaseNode ξ ω)
  uniqOperands : List Int64
  minVal : Int64
  isWorkable : Bool
  lNode : Option (BaseNode ξ ω)

namespace IorState

def init (node : BaseNode ξ ω) : IorState ξ ω := ⟨[node], [], Int64.maxValue, true, none⟩

/-- The branch of a leaf `eq`; `st` is the state after the leaf has been popped. -/
def visitEq [DecidableEq ξ] [DecidableEq ω] (opnd0 opnd1 : BaseNode ξ ω) (st : IorState ξ ω) :
    IorState ξ ω :=
  match if st.lNode = none ∧ opnd0.isRead then some opnd0 else st.lNode with
  | none => { st with isWorkable := false }
  | some lNode =>
    match opnd1 with
    | .constval primType v =>
      if lNode = opnd0 ∧ primType.isPrimitiveInteger then
        { st with
          uniqOperands := st.uniqOperands ++ [getExtValue v]
          minVal := min st.minVal (getExtValue v)
          lNode := some lNode }
      else { st with isWorkable := false, lNode := some lNode }
    | _ => { st with isWorkable := false, lNode := some lNode }

/-- One round; a `break` is a state that is not workable. -/
def step [DecidableEq ξ] [DecidableEq ω] (st : IorState ξ ω) : IorState ξ ω :=
  match st.operands with
  | [] => st
  | .ior _ _ opnd0 opnd1 :: rest => { st with operands := rest ++ [opnd0] ++ [opnd1] }
  | .eq opnd0 opnd1 :: rest => visitEq opnd0 opnd1 { st with operands := rest }
  | _ :: rest => { st with operands := rest, isWorkable := false }

def running (st : IorState ξ ω) : Bool := st.isWorkable && !st.operands.isEmpty

end IorState

/-! ### Trees of tests -/

/-- A tree whose leaves are `eq (x, c)`. -/
inductive IorTests where
  | eq (c : Int)
  | ior (op : IorOp) (primType : PrimType) (opnd0 opnd1 : IorTests)

namespace IorTests

/-- The constants are of the type of `x`. -/
def node (x : ξ) (px : PrimType) : IorTests → BaseNode ξ ω
  | eq c => .eq (.read x) (.constval px c)
  | ior op primType opnd0 opnd1 => .ior op primType (opnd0.node x px) (opnd1.node x px)

def consts : IorTests → List Int
  | eq c => [c]
  | ior _ _ opnd0 opnd1 => opnd0.consts ++ opnd1.consts

def rVals (t : IorTests) : List Int64 := t.consts.map getExtValue

end IorTests

/-! ### The loop on a tree of tests -/

variable {x : ξ} {px : PrimType}

/-- The constants are in the list or in the trees that the queue still holds. -/
structure Collecting (x : ξ) (px : PrimType) (all : List Int64) (st : IorState ξ ω)
    (ts : List IorTests) : Prop where
  isWorkable : st.isWorkable = true
  operands : st.operands = ts.map (IorTests.node x px)
  mem_iff : ∀ r, r ∈ all ↔ r ∈ st.uniqOperands ∨ ∃ t ∈ ts, r ∈ t.rVals
  lNode : st.lNode = some (.read x) ∨ st.lNode = none ∧ st.uniqOperands = []
  minVal : st.minVal = st.uniqOperands.foldl min Int64.maxValue

lemma collecting_init (t : IorTests) :
    Collecting x px t.rVals (.init (t.node x px) : IorState ξ ω) [t] :=
  ⟨rfl, rfl, by simp [IorState.init], Or.inr ⟨rfl, rfl⟩, rfl⟩

variable [DecidableEq ξ] [DecidableEq ω]

lemma Collecting.step_eq (hpx : px.isPrimitiveInteger = true) {all : List Int64}
    {st : IorState ξ ω} {c : Int} {ts : List IorTests}
    (h : Collecting x px all st (.eq c :: ts)) : Collecting x px all st.step ts := by
  have hstep : st.step = { st with
      operands := ts.map (IorTests.node x px)
      uniqOperands := st.uniqOperands ++ [getExtValue c]
      minVal := min st.minVal (getExtValue c)
      lNode := some (.read x) } := by
    obtain hl | ⟨hl, -⟩ := h.lNode <;>
      simp [IorState.step, IorState.visitEq, h.operands, IorTests.node, hl, hpx, BaseNode.isRead]
  rw [hstep]
  refine ⟨h.isWorkable, rfl, ?_, Or.inl rfl, ?_⟩
  · intro r
    rw [h.mem_iff]
    simp only [IorTests.rVals, IorTests.consts, List.mem_cons, List.mem_append, List.map_cons,
      List.map_nil, exists_eq_or_imp, List.not_mem_nil, or_false, or_assoc]
  · simp [h.minVal]

lemma Collecting.step_ior {all : List Int64} {st : IorState ξ ω} {op : IorOp}
    {primType : PrimType} {opnd0 opnd1 : IorTests} {ts : List IorTests}
    (h : Collecting x px all st (.ior op primType opnd0 opnd1 :: ts)) :
    Collecting x px all st.step (ts ++ [opnd0] ++ [opnd1]) := by
  have hstep : st.step = { st with
      operands := (ts ++ [opnd0] ++ [opnd1]).map (IorTests.node x px) } := by
    simp [IorState.step, h.operands, IorTests.node]
  rw [hstep]
  refine ⟨h.isWorkable, rfl, ?_, h.lNode, h.minVal⟩
  intro r
  rw [h.mem_iff]
  simp only [IorTests.rVals, IorTests.consts, List.mem_cons, List.mem_append, List.map_append,
    exists_eq_or_imp, List.not_mem_nil, or_false]
  constructor
  · rintro (hr | (hr | hr) | ⟨t, ht, hr⟩)
    · exact Or.inl hr
    · exact Or.inr ⟨opnd0, Or.inl (Or.inr rfl), hr⟩
    · exact Or.inr ⟨opnd1, Or.inr rfl, hr⟩
    · exact Or.inr ⟨t, Or.inl (Or.inl ht), hr⟩
  · rintro (hr | ⟨t, (ht | rfl) | rfl, hr⟩)
    · exact Or.inl hr
    · exact Or.inr (Or.inr ⟨t, ht, hr⟩)
    · exact Or.inr (Or.inl (Or.inl hr))
    · exact Or.inr (Or.inl (Or.inr hr))

lemma Collecting.step (hpx : px.isPrimitiveInteger = true) {all : List Int64} {st : IorState ξ ω}
    {ts : List IorTests} (h : Collecting x px all st ts) (hrun : st.running = true) :
    ∃ ts, Collecting x px all st.step ts := by
  cases ts with
  | nil => simp [IorState.running, h.operands] at hrun
  | cons t ts =>
    cases t with
    | eq c => exact ⟨_, h.step_eq hpx⟩
    | ior op primType opnd0 opnd1 => exact ⟨_, h.step_ior⟩

lemma IorState.count_step {st : IorState ξ ω} (h : st.running = true) :
    (st.step.operands.map BaseNode.count).sum < (st.operands.map BaseNode.count).sum := by
  have hne : st.operands ≠ [] := by
    intro hnil
    simp [running, hnil] at h
  obtain ⟨operand, rest, hst⟩ := List.exists_cons_of_ne_nil hne
  cases operand with
  | ior op primType opnd0 opnd1 =>
    simp only [step, hst, List.map_append, List.map_cons, List.map_nil, List.sum_append,
      List.sum_cons, List.sum_nil, BaseNode.count]
    omega
  | eq opnd0 opnd1 =>
    have hvisit : ∀ st : IorState ξ ω, (visitEq opnd0 opnd1 st).operands = st.operands := by
      intro st
      unfold visitEq
      split <;> try rfl
      split <;> try rfl
      split <;> rfl
    simp [step, hst, hvisit, BaseNode.count]
  | read x => simp [step, hst, BaseNode.count]
  | constval primType value => simp [step, hst, BaseNode.count]
  | sub primType opnd0 opnd1 => simp [step, hst, BaseNode.count]
  | le opndType opnd0 opnd1 => simp [step, hst, BaseNode.count]
  | other e => simp [step, hst, BaseNode.count]

lemma exists_collected (hpx : px.isPrimitiveInteger = true) (t : IorTests) :
    ∃ st : IorState ξ ω, Outcome.Settles (fun fuel =>
        whileLoop IorState.running (fun st => some st.step) fuel (.init (t.node x px))) (.done st) ∧
      Collecting x px t.rVals st [] := by
  obtain ⟨st, hsettles, ⟨ts, hts⟩, hend⟩ := whileLoop_settles
    (fun st : IorState ξ ω => ∃ ts, Collecting x px t.rVals st ts)
    (fun st => (st.operands.map BaseNode.count).sum)
    (fun st ⟨ts, hts⟩ hrun => ⟨hts.step hpx hrun, IorState.count_step hrun⟩)
    ⟨[t], collecting_init t⟩
  refine ⟨st, hsettles, ?_⟩
  have hnil : ts = [] := by
    simpa [IorState.running, hts.isWorkable, hts.operands] using hend
  exact hnil ▸ hts



/-- `std::sort`, then `std::unique` and `erase`. -/
def sortUnique (l : List Int64) : List Int64 := (l.insertionSort (· ≤ ·)).destutter (· ≠ ·)

/-- The test of the sorted constants. -/
def isRange (uniqOperands : List Int64) : Bool :=
  let size := UInt64.ofNat uniqOperands.length
  2 ≤ size && uniqOperands.getLast? == uniqOperands.head?.map (· + size.toInt64 - 1)

/-! ### The test of the constants -/

/-- As numbers the constants are those from `first` to `first + k`. -/
def IsRun (rVals : List Int64) (first k : Int) : Prop :=
  ∀ i : Int, i ∈ rVals.map Int64.toInt ↔ first ≤ i ∧ i ≤ first + k

lemma IsRun.congr {l l' : List Int64} (h : ∀ r, r ∈ l ↔ r ∈ l') {first k : Int}
    (hrun : IsRun l first k) : IsRun l' first k := by
  intro i
  rw [← hrun i]
  simp only [List.mem_map, h]

lemma IsRun.unique {l : List Int64} {first k first' k' : Int} (h : IsRun l first k)
    (h' : IsRun l first' k') (hk : 0 ≤ k) (hk' : 0 ≤ k') : first = first' ∧ k = k' := by
  have h₁ := (h first).symm.trans (h' first)
  have h₂ := (h first').symm.trans (h' first')
  have h₃ := (h (first + k)).symm.trans (h' (first + k))
  have h₄ := (h (first' + k')).symm.trans (h' (first' + k'))
  omega

lemma pairwise_insertionSort (l : List Int64) :
    (l.insertionSort (· ≤ ·)).Pairwise (· ≤ ·) :=
  List.pairwise_insertionSort (fun a b : Int64 => a ≤ b) l

lemma sortUnique_eq_dedup (l : List Int64) :
    sortUnique l = (l.insertionSort (· ≤ ·)).dedup :=
  (pairwise_insertionSort l).destutter_eq_dedup

lemma mem_sortUnique (l : List Int64) (r : Int64) : r ∈ sortUnique l ↔ r ∈ l := by
  rw [sortUnique_eq_dedup, List.mem_dedup, List.mem_insertionSort]

lemma nodup_sortUnique (l : List Int64) : ((sortUnique l).map Int64.toInt).Nodup := by
  rw [sortUnique_eq_dedup]
  exact (List.nodup_dedup _).map fun a b => Int64.toInt_inj.mp

lemma pairwise_sortUnique (l : List Int64) : (sortUnique l).Pairwise (· ≤ ·) :=
  (pairwise_insertionSort l).sublist (List.destutter_sublist _ _)

lemma head_sortUnique_iff (l : List Int64) (c : Int64) :
    (sortUnique l).head? = some c ↔ c ∈ l ∧ ∀ r ∈ l, c ≤ r := by
  rw [List.head_eq_some_iff_of_pairwise (fun a => Int64.le_refl a) (fun a b => Int64.le_antisymm)
    (pairwise_sortUnique l)]
  simp only [mem_sortUnique]

lemma getLast_sortUnique_iff (l : List Int64) (c : Int64) :
    (sortUnique l).getLast? = some c ↔ c ∈ l ∧ ∀ r ∈ l, r ≤ c := by
  rw [List.getLast_eq_some_iff_of_pairwise (fun a => Int64.le_refl a)
    (fun a b => Int64.le_antisymm) (pairwise_sortUnique l)]
  simp only [mem_sortUnique]

lemma IsRun.length_sortUnique {l : List Int64} {first k : Int} (h : IsRun l first k)
    (hk : 0 ≤ k) : ((sortUnique l).length : Int) = k + 1 := by
  have hset : ((sortUnique l).map Int64.toInt).toFinset = Finset.Icc first (first + k) := by
    ext i
    rw [List.mem_toFinset, Finset.mem_Icc, ← h i]
    simp only [List.mem_map, mem_sortUnique]
  have hcard := List.toFinset_card_of_nodup (nodup_sortUnique l)
  rw [hset, List.length_map, Int.card_Icc] at hcard
  omega

lemma IsRun.head_getLast {l : List Int64} {first k : Int} (h : IsRun l first k) (hk : 0 ≤ k) :
    ∃ a b, (sortUnique l).head? = some a ∧ (sortUnique l).getLast? = some b ∧ a.toInt = first ∧
      b.toInt = first + k := by
  obtain ⟨a, hal, ha⟩ := List.mem_map.mp ((h first).mpr ⟨le_refl _, by omega⟩)
  obtain ⟨b, hbl, hb⟩ := List.mem_map.mp ((h (first + k)).mpr ⟨by omega, le_refl _⟩)
  refine ⟨a, b, (head_sortUnique_iff l a).mpr ⟨hal, ?_⟩, (getLast_sortUnique_iff l b).mpr ⟨hbl, ?_⟩,
    ha, hb⟩
  · intro r hr
    rw [Int64.le_iff_toInt_le, ha]
    exact ((h r.toInt).mp (List.mem_map_of_mem hr)).1
  · intro r hr
    rw [Int64.le_iff_toInt_le, hb]
    exact ((h r.toInt).mp (List.mem_map_of_mem hr)).2

lemma length_sortUnique_le {l : List Int64} {a b : Int64} (ha : (sortUnique l).head? = some a)
    (hb : (sortUnique l).getLast? = some b) :
    (∀ i ∈ (sortUnique l).map Int64.toInt, a.toInt ≤ i ∧ i ≤ b.toInt) ∧
      ((sortUnique l).length : Int) ≤ b.toInt - a.toInt + 1 := by
  have hmem : ∀ i ∈ (sortUnique l).map Int64.toInt, a.toInt ≤ i ∧ i ≤ b.toInt := by
    intro i hi
    obtain ⟨r, hr, rfl⟩ := List.mem_map.mp hi
    rw [mem_sortUnique] at hr
    exact ⟨Int64.le_iff_toInt_le.mp (((head_sortUnique_iff l a).mp ha).2 r hr),
      Int64.le_iff_toInt_le.mp (((getLast_sortUnique_iff l b).mp hb).2 r hr)⟩
  refine ⟨hmem, ?_⟩
  have hsub : ((sortUnique l).map Int64.toInt).toFinset ⊆ Finset.Icc a.toInt b.toInt := by
    intro i hi
    exact Finset.mem_Icc.mpr (hmem i (List.mem_toFinset.mp hi))
  have hcard := Finset.card_le_card hsub
  have hle := Int64.le_iff_toInt_le.mp
    (((head_sortUnique_iff l a).mp ha).2 b ((getLast_sortUnique_iff l b).mp hb).1)
  rw [List.toFinset_card_of_nodup (nodup_sortUnique l), List.length_map, Int.card_Icc] at hcard
  omega

lemma toInt_last_emod (a : Int64) (n : Nat) :
    (a + (UInt64.ofNat n).toInt64 - 1).toInt % 2 ^ 64 = (a.toInt + n - 1) % 2 ^ 64 := by
  have hone : (1 : Int64).toInt = 1 := rfl
  rw [Int64.toInt_sub, Int64.toInt_add, UInt64.toInt64_ofNat', Int64.toInt_ofNat', hone,
    Int.add_bmod_bmod, Int.bmod_sub_bmod]
  exact Int.bmod_emod

lemma isRange_sortUnique_iff (l : List Int64) :
    isRange (sortUnique l) = true ↔ ∃ first k, 1 ≤ k ∧ k < 2 ^ 64 - 1 ∧ IsRun l first k := by
  have htwo : (2 : UInt64).toNat = 2 := rfl
  constructor
  · intro h
    simp only [isRange, Bool.and_eq_true, decide_eq_true_eq, beq_iff_eq, UInt64.le_iff_toNat_le,
      UInt64.toNat_ofNat', htwo] at h
    obtain ⟨hsize, hlast⟩ := h
    cases ha : (sortUnique l).head? with
    | none =>
      rw [List.head?_eq_none_iff] at ha
      simp [ha] at hsize
    | some a =>
      rw [ha, Option.map_some] at hlast
      obtain ⟨hmem, hle⟩ := length_sortUnique_le ha hlast
      have hemod := toInt_last_emod a (sortUnique l).length
      have hlow := Int64.le_toInt a
      generalize hb : a + (UInt64.ofNat (sortUnique l).length).toInt64 - 1 = b at *
      have hup := Int64.toInt_lt b
      have hlen : ((sortUnique l).length : Int) = b.toInt - a.toInt + 1 := by omega
      refine ⟨a.toInt, b.toInt - a.toInt, by omega, by omega, ?_⟩
      have hcover := (List.covers_interval_iff hmem (by rw [List.length_map, hlen])).mpr
        (nodup_sortUnique l)
      intro i
      have hmap : i ∈ l.map Int64.toInt ↔ i ∈ (sortUnique l).map Int64.toInt := by
        simp only [List.mem_map, mem_sortUnique]
      rw [hmap]
      constructor
      · intro hi
        have := hmem i hi
        omega
      · rintro ⟨hlo, hhi⟩
        exact hcover i hlo (by omega)
  · rintro ⟨first, k, hk, hk', hrun⟩
    have hlen := hrun.length_sortUnique (by omega)
    obtain ⟨a, b, ha, hb, hfirst, hlast⟩ := hrun.head_getLast (by omega)
    simp only [isRange, Bool.and_eq_true, decide_eq_true_eq, beq_iff_eq, ha, hb, Option.map_some,
      UInt64.le_iff_toNat_le, UInt64.toNat_ofNat', htwo]
    refine ⟨by omega, ?_⟩
    have hemod := toInt_last_emod a (sortUnique l).length
    rw [Option.some_inj, ← Int64.toInt_inj]
    generalize a + (UInt64.ofNat (sortUnique l).length).toInt64 - 1 = b' at *
    have := Int64.le_toInt b
    have := Int64.toInt_lt b
    have := Int64.le_toInt b'
    have := Int64.toInt_lt b'
    omega

lemma foldl_min_eq {l : List Int64} {a : Int64} (ha : (sortUnique l).head? = some a) :
    l.foldl min Int64.maxValue = a := by
  obtain ⟨hmem, hle⟩ := (head_sortUnique_iff l a).mp ha
  have hmin : (Int64.maxValue :: l).min? = some a := by
    rw [List.min?_eq_some_iff]
    refine ⟨List.mem_cons_of_mem _ hmem, ?_⟩
    intro b hb
    rcases List.mem_cons.mp hb with rfl | hb
    · rw [Int64.le_iff_toInt_le]
      exact Int64.toInt_le a
    · exact hle b hb
  rwa [List.min?_cons', Option.some_inj] at hmin

/-! ### The result -/

variable [Target]

namespace BaseNode

/-- The value of an expression; an unsigned comparison or a subtraction takes its operands as values
of its type. -/
def eval (value : ξ → Int) (others : ω → Int) : BaseNode ξ ω → Int
  | read x => value x
  | constval _ v => v
  | sub primType a b => primType.format.wrap (a.eval value others - b.eval value others)
  | eq a b => if a.eval value others = b.eval value others then 1 else 0
  | le opndType a b =>
    if opndType.format.wrap (a.eval value others) ≤ opndType.format.wrap (b.eval value others)
    then 1 else 0
  | ior _ _ a b => if a.eval value others ≠ 0 ∨ b.eval value others ≠ 0 then 1 else 0
  | other e => others e

/-- `MIRBuilder::CreateIntConst`: the constant is cut down to its type. -/
def createIntConst (val : UInt64) (primType : PrimType) : BaseNode ξ ω :=
  constval primType (primType.format.wrap val.toNat)

end BaseNode

omit [DecidableEq ξ] [DecidableEq ω] in
lemma IorTests.eval_node (x : ξ) (px : PrimType) (value : ξ → Int) (others : ω → Int) (t : IorTests) :
    (t.node x px).eval value others ≠ 0 ↔ value x ∈ t.consts := by
  induction t with
  | eq c =>
    rw [consts, List.mem_singleton, node, BaseNode.eval, ite_ne_right_iff]
    exact and_iff_left one_ne_zero
  | ior op primType opnd0 opnd1 ih0 ih1 =>
    rw [consts, List.mem_append, ← ih0, ← ih1, node, BaseNode.eval, ite_ne_right_iff]
    exact and_iff_left one_ne_zero

def cmpPrimType (nPrimType : PrimType) : PrimType :=
  if nPrimType = .i64 ∨ nPrimType = .u64 then .u64 else .u32

/-- `le (lNode - minVal), size - 1`. -/
def rangeTest (nPrimType : PrimType) (lNode : BaseNode ξ ω) (minVal : Int64) (size : UInt64) :
    BaseNode ξ ω :=
  let diffVal := .sub nPrimType lNode (.createIntConst minVal.toUInt64 nPrimType)
  .le (cmpPrimType nPrimType) diffVal (.createIntConst (size - 1) (cmpPrimType nPrimType))

/-- The part after the loop. -/
def finishIor (node : BaseNode ξ ω) (nPrimType : PrimType) (st : IorState ξ ω) : BaseNode ξ ω :=
  if st.isWorkable then
    let uniqOperands := sortUnique st.uniqOperands
    match isRange uniqOperands, st.lNode with
    | true, some lNode => rangeTest nPrimType lNode st.minVal (UInt64.ofNat uniqOperands.length)
    | _, _ => node
  else node

/-- `ExtFoldIor` on the node `op (opnd0, opnd1)` of type `nPrimType`. -/
def extFoldIor (op : IorOp) (nPrimType : PrimType)
    (opnd0 opnd1 : BaseNode ξ ω) (fuel : Nat) : Outcome (BaseNode ξ ω) :=
  let node := .ior op nPrimType opnd0 opnd1
  (whileLoop IorState.running (fun st => some st.step) fuel (.init node)).bind fun st =>
    .done (finishIor node nPrimType st)

/-- The test of a run. -/
def runTest (x : ξ) (nPrimType : PrimType) (first k : Int) : BaseNode ξ ω :=
  .le (cmpPrimType nPrimType)
    (.sub nPrimType (.read x) (.constval nPrimType (nPrimType.format.wrap (first % 2 ^ 64))))
    (.constval (cmpPrimType nPrimType) ((cmpPrimType nPrimType).format.wrap k))

omit [DecidableEq ξ] [DecidableEq ω] in
lemma finishIor_of_run {all : List Int64} {st : IorState ξ ω} (hst : Collecting x px all st [])
    (node : BaseNode ξ ω) (nPrimType : PrimType) {first k : Int} (hk : 1 ≤ k)
    (hk' : k < 2 ^ 64 - 1) (hrun : IsRun st.uniqOperands first k) :
    finishIor node nPrimType st = runTest x nPrimType first k := by
  have hlen := hrun.length_sortUnique (by omega)
  obtain ⟨a, b, ha, -, hfirst, -⟩ := hrun.head_getLast (by omega)
  have hrange := (isRange_sortUnique_iff _).mpr ⟨first, k, hk, hk', hrun⟩
  have hread : st.lNode = some (.read x) := by
    obtain hread | ⟨-, hnil⟩ := hst.lNode
    · exact hread
    · simp [hnil, sortUnique] at ha
  have hmin : (st.minVal.toUInt64.toNat : Int) = first % 2 ^ 64 := by
    rw [hst.minVal, foldl_min_eq ha, ← hfirst]
    exact Int64.asUInt64_eq a
  have hsize : (((UInt64.ofNat (sortUnique st.uniqOperands).length) - 1).toNat : Int) = k := by
    have hone : (1 : UInt64).toNat = 1 := rfl
    rw [UInt64.toNat_sub, hone, UInt64.toNat_ofNat']
    omega
  simp only [finishIor, hst.isWorkable, if_true, hrange, hread, rangeTest, BaseNode.createIntConst,
    hmin, hsize, runTest]

omit [DecidableEq ξ] [DecidableEq ω] in
lemma finishIor_of_not_run {st : IorState ξ ω} (node : BaseNode ξ ω) (nPrimType : PrimType)
    (h : ¬∃ first k : Int, 1 ≤ k ∧ k < 2 ^ 64 - 1 ∧ IsRun st.uniqOperands first k) :
    finishIor node nPrimType st = node := by
  rw [← isRange_sortUnique_iff, Bool.not_eq_true] at h
  simp [finishIor, h]

lemma extFoldIor_settles (hpx : px.isPrimitiveInteger = true) (op : IorOp) (nPrimType : PrimType)
    {opnd0 opnd1 t : IorTests} (ht : t = .ior op nPrimType opnd0 opnd1) :
    ∃ result : BaseNode ξ ω, Outcome.Settles
        (extFoldIor op nPrimType (opnd0.node x px) (opnd1.node x px)) (.done result) ∧
      (∀ first k : Int, 1 ≤ k → k < 2 ^ 64 - 1 → IsRun t.rVals first k →
        result = runTest x nPrimType first k) ∧
      ((¬∃ first k : Int, 1 ≤ k ∧ k < 2 ^ 64 - 1 ∧ IsRun t.rVals first k) →
        result = t.node x px) := by
  obtain ⟨st, hsettles, hst⟩ := exists_collected (ω := ω) (x := x) hpx t
  have hmem : ∀ r, r ∈ t.rVals ↔ r ∈ st.uniqOperands := by
    intro r
    rw [hst.mem_iff]
    simp
  refine ⟨finishIor (t.node x px) nPrimType st, ?_, ?_, ?_⟩
  · subst ht
    exact hsettles.bind (Outcome.settles_const (by simp))
  · intro first k hk hk' hrun
    exact finishIor_of_run hst _ _ hk hk' (hrun.congr hmem)
  · intro hnone
    apply finishIor_of_not_run
    rintro ⟨first, k, hk, hk', hrun⟩
    exact hnone ⟨first, k, hk, hk', hrun.congr fun r => (hmem r).symm⟩

/-! ### The arithmetic of the test -/

/-- The number of low bits of `x - c` that the test looks at. -/
def testWidth (n : PrimType) : Nat := min n.format.width (cmpPrimType n).format.width

/-- What the test says of a difference. -/
def Accepts (n : PrimType) (k z : Int) : Prop :=
  (cmpPrimType n).format.wrap (n.format.wrap z) ≤ (cmpPrimType n).format.wrap k

lemma cmpPrimType_format (n : PrimType) :
    (cmpPrimType n).format.signed = false ∧
      ((cmpPrimType n).format.width = 32 ∨ (cmpPrimType n).format.width = 64) := by
  unfold cmpPrimType
  split
  · exact ⟨rfl, Or.inr rfl⟩
  · exact ⟨rfl, Or.inl rfl⟩

omit [Target] in
lemma wrap_wrap_congr {f g : IntFormat} {z z' : Int}
    (h : z % 2 ^ min f.width g.width = z' % 2 ^ min f.width g.width) :
    g.wrap (f.wrap z) = g.wrap (f.wrap z') := by
  rcases le_total f.width g.width with hle | hle
  · rw [min_eq_left hle] at h
    rw [(f.wrap_eq_wrap_iff z z').mpr (by exact_mod_cast h)]
  · rw [min_eq_right hle] at h
    rw [IntFormat.wrap_wrap_of_width_le hle, IntFormat.wrap_wrap_of_width_le hle,
      (g.wrap_eq_wrap_iff z z').mpr (by exact_mod_cast h)]

lemma accepts_congr {n : PrimType} {k z z' : Int}
    (h : z % 2 ^ testWidth n = z' % 2 ^ testWidth n) : Accepts n k z ↔ Accepts n k z' := by
  unfold Accepts
  rw [wrap_wrap_congr h]

lemma testWidth_le (n : PrimType) : testWidth n ≤ 64 := by
  have := (cmpPrimType_format n).2
  unfold testWidth
  omega

omit [DecidableEq ξ] [DecidableEq ω] in
lemma eval_runTest (n : PrimType) (first k : Int) (value : ξ → Int) (others : ω → Int) :
    (runTest x n first k : BaseNode ξ ω).eval value others ≠ 0 ↔ Accepts n k (value x - first) := by
  have hmod : (value x - first % 2 ^ 64) % 2 ^ testWidth n =
      (value x - first) % 2 ^ testWidth n := by
    have hdvd : (2 : Int) ^ testWidth n ∣ 2 ^ 64 := pow_dvd_pow 2 (testWidth_le n)
    rw [Int.sub_emod, Int.emod_emod_of_dvd _ hdvd, ← Int.sub_emod]
  simp only [runTest, BaseNode.eval, ite_ne_right_iff, IntFormat.wrap_wrap, IntFormat.wrap_sub_wrap]
  rw [and_iff_left one_ne_zero]
  exact accepts_congr hmod

/-- The types whose negative values become large numbers of `u32`. -/
def IsNarrowSigned (n : PrimType) : Prop := n = .i8 ∨ n = .i16

instance (n : PrimType) : Decidable (IsNarrowSigned n) := inferInstanceAs (Decidable (_ ∨ _))

lemma wrap_cmp_of_mem {n : PrimType} {z : Int} (hz : 0 ≤ z)
    (hlt : z < 2 ^ (cmpPrimType n).format.width) : (cmpPrimType n).format.wrap z = z := by
  unfold IntFormat.wrap IntFormat.modulus
  rw [(cmpPrimType_format n).1]
  exact Int.emod_eq_of_lt hz (by exact_mod_cast hlt)

lemma signed_eq_false {n : PrimType} (hn : n.isPrimitiveInteger = true)
    (hnarrow : ¬IsNarrowSigned n) (hwide : ¬(cmpPrimType n).format.width ≤ n.format.width) :
    n.format.signed = false := by
  cases n with
  | i8 => exact absurd (Or.inl rfl) hnarrow
  | i16 => exact absurd (Or.inr rfl) hnarrow
  | i32 => exact absurd (le_refl 32) hwide
  | i64 => exact absurd (le_refl 64) hwide
  | i128 => exact absurd (show 32 ≤ 128 by decide) hwide
  | v2i64 | v4i32 | v8i16 | v16i8 | v2i32 | v4i16 | v8i8 | v1i64 => exact absurd hn (by decide)
  | _ => rfl

lemma accepts_iff (n : PrimType) (hn : n.isPrimitiveInteger = true) (hnarrow : ¬IsNarrowSigned n)
    {k z : Int} (hz : 0 ≤ z) (hlt : z < 2 ^ testWidth n) :
    Accepts n k z ↔ z ≤ (cmpPrimType n).format.wrap k := by
  have hcmp : z < 2 ^ (cmpPrimType n).format.width :=
    lt_of_lt_of_le hlt (pow_le_pow_right₀ (by decide) (min_le_right _ _))
  unfold Accepts
  by_cases hwide : (cmpPrimType n).format.width ≤ n.format.width
  · rw [IntFormat.wrap_wrap_of_width_le hwide, wrap_cmp_of_mem hz hcmp]
  · have hsigned := signed_eq_false hn hnarrow hwide
    have hfw : z < 2 ^ n.format.width :=
      lt_of_lt_of_le hlt (pow_le_pow_right₀ (by decide) (min_le_left _ _))
    have hself : n.format.wrap z = z := by
      unfold IntFormat.wrap IntFormat.modulus
      rw [hsigned]
      exact Int.emod_eq_of_lt hz (by exact_mod_cast hfw)
    rw [hself, wrap_cmp_of_mem hz hcmp]

lemma accepts_iff_of_narrow {n : PrimType} (hnarrow : IsNarrowSigned n) {k z : Int} (hz : 0 ≤ z)
    (hlt : z < 2 ^ testWidth n) :
    Accepts n k z ↔ (if z < 2 ^ (testWidth n - 1) then z else z - 2 ^ testWidth n + 2 ^ 32) ≤
      k % 2 ^ 32 := by
  rcases hnarrow with rfl | rfl
  · have hw : testWidth .i8 = 8 := rfl
    have hf : PrimType.i8.format = ⟨8, true⟩ := rfl
    have hg : (cmpPrimType .i8).format = ⟨32, false⟩ := rfl
    rw [hw] at hlt ⊢
    rw [Accepts, hf, hg, IntFormat.wrap_unsigned, IntFormat.wrap_unsigned, IntFormat.wrap_signed,
      Int.bmod_def]
    split_ifs <;> omega
  · have hw : testWidth .i16 = 16 := rfl
    have hf : PrimType.i16.format = ⟨16, true⟩ := rfl
    have hg : (cmpPrimType .i16).format = ⟨32, false⟩ := rfl
    rw [hw] at hlt ⊢
    rw [Accepts, hf, hg, IntFormat.wrap_unsigned, IntFormat.wrap_unsigned, IntFormat.wrap_signed,
      Int.bmod_def]
    split_ifs <;> omega

/-- The run of `k + 1` numbers has a test of its own: the type of `x` is not wider than the test, and
the differences are not negative in a narrow signed type. Or the run is the whole type. -/
def Fits (px n : PrimType) (k : Int) : Prop :=
  (px.format.width ≤ testWidth n ∧ (IsNarrowSigned n → k < 2 ^ (testWidth n - 1))) ∨
  (testWidth n < px.format.width ∧ px.format.width ≤ 32 ∧ k = 2 ^ px.format.width - 1 ∧
    (IsNarrowSigned n → px.format.width = 32))

omit [Target] in
lemma emod_le_iff {lo hi first k m s : Int} (hspan : hi - lo < m) (hlo : lo ≤ first)
    (hhi : first + k ≤ hi) (hk : 0 ≤ k) (hs : lo ≤ s) (hs' : s ≤ hi) :
    (s - first) % m ≤ k ↔ first ≤ s ∧ s ≤ first + k := by
  rcases le_or_gt first s with hle | hlt
  · rw [Int.emod_eq_of_lt (by omega) (by omega)]
    omega
  · rw [← Int.add_emod_right, Int.emod_eq_of_lt (by omega) (by omega)]
    omega

omit [Target] in
lemma eq_of_closed {lo hi first k m : Int} (hm : 0 < m) (hspan : lo + 2 * m ≤ hi + 1)
    (hlo : lo ≤ first) (hhi : first + k ≤ hi) (hk : 0 ≤ k)
    (hclosed : ∀ s, lo ≤ s → s + m ≤ hi →
      (first ≤ s ∧ s ≤ first + k ↔ first ≤ s + m ∧ s + m ≤ first + k)) :
    first = lo ∧ first + k = hi := by
  have h₁ := hclosed (first - 1)
  have h₂ := hclosed first
  have h₃ := hclosed (first - m)
  have h₄ := hclosed (first + k + 1 - m)
  omega

lemma two_pow_of_narrow {n : PrimType} (h : IsNarrowSigned n) :
    (2 : Int) ^ testWidth n = 2 * 2 ^ (testWidth n - 1) ∧ (2 : Int) ^ testWidth n ≤ 65536 := by
  rcases h with rfl | rfl
  · exact ⟨show (2 : Int) ^ 8 = 2 * 2 ^ 7 by decide, show (2 : Int) ^ 8 ≤ 65536 by decide⟩
  · exact ⟨show (2 : Int) ^ 16 = 2 * 2 ^ 15 by decide, show (2 : Int) ^ 16 ≤ 65536 by decide⟩

section

variable {n : PrimType} {w : Nat} {lo hi first k : Int}

lemma accepts_residue (z : Int) : Accepts n k z ↔ Accepts n k (z % 2 ^ testWidth n) :=
  accepts_congr (Int.emod_emod_of_dvd z (dvd_refl _)).symm

lemma residue_mem (n : PrimType) (z : Int) :
    0 ≤ z % 2 ^ testWidth n ∧ z % 2 ^ testWidth n < 2 ^ testWidth n := by
  have hpos : (0 : Int) < 2 ^ testWidth n := by positivity
  exact ⟨Int.emod_nonneg _ hpos.ne', Int.emod_lt_of_pos _ hpos⟩

lemma two_pow_testWidth_le (n : PrimType) :
    (2 : Int) ^ testWidth n ≤ 2 ^ (cmpPrimType n).format.width :=
  pow_le_pow_right₀ (by decide) (min_le_right _ _)

variable (hspan : hi + 1 = lo + 2 ^ w) (hlo : lo ≤ first) (hhi : first + k ≤ hi) (hk : 1 ≤ k)
include hspan hlo hhi hk

/-! In an interval of at most as many numbers as the test has. -/

lemma accepts_run (hn : n.isPrimitiveInteger = true) (hnarrow : ¬IsNarrowSigned n)
    (hle : w ≤ testWidth n) {s : Int} (hs : lo ≤ s) (hs' : s ≤ hi) :
    Accepts n k (s - first) ↔ first ≤ s ∧ s ≤ first + k := by
  have hpow : (2 : Int) ^ w ≤ 2 ^ testWidth n := pow_le_pow_right₀ (by decide) hle
  have hcmp := two_pow_testWidth_le n
  obtain ⟨hz, hlt⟩ := residue_mem n (s - first)
  rw [accepts_residue, accepts_iff n hn hnarrow hz hlt, wrap_cmp_of_mem (by omega) (by omega)]
  exact emod_le_iff (by omega) hlo hhi (by omega) hs hs'

lemma accepts_run_iff_of_narrow (hnarrow : IsNarrowSigned n) (hle : w ≤ testWidth n) :
    (∀ s, lo ≤ s → s ≤ hi → (Accepts n k (s - first) ↔ first ≤ s ∧ s ≤ first + k)) ↔
      k < 2 ^ (testWidth n - 1) := by
  have hpow : (2 : Int) ^ w ≤ 2 ^ testWidth n := pow_le_pow_right₀ (by decide) hle
  have hhalf : (0 : Int) < 2 ^ (testWidth n - 1) := by positivity
  obtain ⟨htwice, hbound⟩ := two_pow_of_narrow hnarrow
  constructor
  · intro h
    by_contra hge
    have haccepts := (h (first + 2 ^ (testWidth n - 1)) (by omega) (by omega)).mpr (by omega)
    rw [add_sub_cancel_left, accepts_iff_of_narrow hnarrow (by omega) (by omega),
      if_neg (lt_irrefl _)] at haccepts
    omega
  · intro hlt s hs hs'
    obtain ⟨hz, hz'⟩ := residue_mem n (s - first)
    rw [accepts_residue, accepts_iff_of_narrow hnarrow hz hz',
      ← emod_le_iff (m := 2 ^ testWidth n) (by omega) hlo hhi (by omega) hs hs']
    split <;> omega

/-! In a larger interval only the whole of it can be tested. -/

lemma whole_of_accepts (hlt : testWidth n < w)
    (h : ∀ s, lo ≤ s → s ≤ hi → (Accepts n k (s - first) ↔ first ≤ s ∧ s ≤ first + k)) :
    first = lo ∧ first + k = hi := by
  have hpow : (2 : Int) ^ (testWidth n + 1) ≤ 2 ^ w := pow_le_pow_right₀ (by decide) hlt
  rw [pow_succ] at hpow
  have hpos : (0 : Int) < 2 ^ testWidth n := by positivity
  apply eq_of_closed hpos (by omega) hlo hhi (by omega)
  intro s hs hs'
  rw [← h s hs (by omega), ← h (s + 2 ^ testWidth n) (by omega) hs']
  apply accepts_congr
  rw [add_sub_right_comm, Int.add_emod_right]

omit hspan hlo hhi hk in
lemma accepts_whole (hn : n.isPrimitiveInteger = true) (hnarrow : ¬IsNarrowSigned n)
    (hlt : testWidth n < w) (hw : w ≤ 32) (z : Int) : Accepts n (2 ^ w - 1) z := by
  have hpow : (2 : Int) ^ testWidth n ≤ 2 ^ w := pow_le_pow_right₀ (by decide) hlt.le
  have hcmp : (2 : Int) ^ w ≤ 2 ^ (cmpPrimType n).format.width :=
    pow_le_pow_right₀ (by decide) (by have := (cmpPrimType_format n).2; omega)
  obtain ⟨hz, hz'⟩ := residue_mem n z
  rw [accepts_residue, accepts_iff n hn hnarrow hz hz', wrap_cmp_of_mem (by omega) (by omega)]
  omega

omit hspan hlo hhi hk in
lemma accepts_whole_iff_of_narrow (hnarrow : IsNarrowSigned n) (hw : w ≤ 32) :
    (∀ z, Accepts n (2 ^ w - 1) z) ↔ w = 32 := by
  have hhalf : (0 : Int) < 2 ^ (testWidth n - 1) := by positivity
  obtain ⟨htwice, hbound⟩ := two_pow_of_narrow hnarrow
  constructor
  · intro h
    by_contra hne
    have hpow : (2 : Int) ^ w ≤ 2 ^ 31 := pow_le_pow_right₀ (by decide) (by omega)
    have hpos : (0 : Int) < 2 ^ w := by positivity
    have haccepts := h (2 ^ testWidth n - 1)
    rw [accepts_iff_of_narrow hnarrow (by omega) (by omega), if_neg (by omega)] at haccepts
    omega
  · rintro rfl z
    obtain ⟨hz, hz'⟩ := residue_mem n z
    rw [accepts_residue, accepts_iff_of_narrow hnarrow hz hz']
    split <;> omega

end

lemma accepts_run_iff {px n : PrimType} {lo hi first k : Int} (hpx : px.isPrimitiveInteger = true)
    (hw : px.format.width ≤ 64) (hn : n.isPrimitiveInteger = true)
    (hspan : hi + 1 = lo + 2 ^ px.format.width) (hlo : lo ≤ first) (hhi : first + k ≤ hi)
    (hk : 1 ≤ k) (hk' : k < 2 ^ 64 - 1) :
    (∀ s, lo ≤ s → s ≤ hi → (Accepts n k (s - first) ↔ first ≤ s ∧ s ≤ first + k)) ↔
      Fits px n k := by
  rcases le_or_gt px.format.width (testWidth n) with hle | hlt
  · have hfits : Fits px n k ↔ (IsNarrowSigned n → k < 2 ^ (testWidth n - 1)) := by
      unfold Fits
      simp only [hle, true_and, not_lt.mpr hle, false_and, or_false]
    rw [hfits]
    by_cases hnarrow : IsNarrowSigned n
    · rw [accepts_run_iff_of_narrow hspan hlo hhi hk hnarrow hle]
      exact (imp_iff_right hnarrow).symm
    · refine iff_of_true ?_ fun h => absurd h hnarrow
      intro s hs hs'
      exact accepts_run hspan hlo hhi hk hn hnarrow hle hs hs'
  · have hfits : Fits px n k ↔ px.format.width ≤ 32 ∧ k = 2 ^ px.format.width - 1 ∧
        (IsNarrowSigned n → px.format.width = 32) := by
      unfold Fits
      simp only [hlt, true_and, not_le.mpr hlt, false_and, false_or]
    rw [hfits]
    constructor
    · intro h
      obtain ⟨rfl, hwhole⟩ := whole_of_accepts hspan hlo hhi hk hlt h
      have hkw : k = 2 ^ px.format.width - 1 := by omega
      have hw32 : px.format.width ≤ 32 := by
        by_contra hgt
        have hw64 : px.format.width = 64 := by
          have := PrimType.width_cases hpx
          omega
        rw [hw64] at hkw
        omega
      refine ⟨hw32, hkw, ?_⟩
      intro hnarrow
      rw [← accepts_whole_iff_of_narrow hnarrow hw32]
      intro z
      have hpow : (2 : Int) ^ testWidth n ≤ 2 ^ px.format.width :=
        pow_le_pow_right₀ (by decide) hlt.le
      obtain ⟨hz, hz'⟩ := residue_mem n z
      have haccepts := (h (first + z % 2 ^ testWidth n) (by omega) (by omega)).mpr (by omega)
      rw [add_sub_cancel_left, ← accepts_residue] at haccepts
      exact hkw ▸ haccepts
    · rintro ⟨hw32, rfl, hnarrow⟩ s hs hs'
      refine iff_of_true ?_ (by omega)
      by_cases hn' : IsNarrowSigned n
      · exact (accepts_whole_iff_of_narrow hn' hw32).mpr (hnarrow hn') _
      · exact accepts_whole hn hn' hlt hw32 _

/-! ### The constants as values of `x` -/

omit [Target] in
lemma toInt_getExtValue (v : Int) : (getExtValue v).toInt = (IntFormat.mk 64 true).wrap v := by
  rw [IntFormat.wrap_signed]
  exact Int64.toInt_ofInt

omit [Target] in
lemma mem_int64_of_mem {f : IntFormat} (hw : f.width < 64) {v : Int} (hv : f.Mem v) :
    (IntFormat.mk 64 true).Mem v := by
  have hpow : f.modulus ≤ 2 ^ 63 := Nat.pow_le_pow_right (by decide) (by omega)
  change -2 ^ 63 ≤ v ∧ v ≤ 2 ^ 63 - 1
  unfold IntFormat.Mem IntFormat.minValue IntFormat.maxValue at hv
  split_ifs at hv <;> omega

lemma exists_bounds (px : PrimType) (hw : px.format.width ≤ 64) :
    ∃ lo hi : Int, hi + 1 = lo + 2 ^ px.format.width ∧
      ∀ s, lo ≤ s ∧ s ≤ hi ↔ ∃ v, px.format.Mem v ∧ (getExtValue v).toInt = s := by
  simp only [toInt_getExtValue]
  rcases hw.lt_or_eq with hlt | heq
  · refine ⟨px.format.minValue, px.format.maxValue, ?_, ?_⟩
    · have hspan := px.format.maxValue_sub_minValue
      have hmod : (px.format.modulus : Int) = 2 ^ px.format.width := by
        simp [IntFormat.modulus]
      omega
    · have hmem : ∀ v, px.format.Mem v → (IntFormat.mk 64 true).wrap v = v := fun v hv =>
        IntFormat.wrap_of_mem _ (mem_int64_of_mem hlt hv)
      intro s
      constructor
      · intro hs
        exact ⟨s, hs, hmem s hs⟩
      · rintro ⟨v, hv, rfl⟩
        rw [hmem v hv]
        exact hv
  · refine ⟨-2 ^ 63, 2 ^ 63 - 1, by rw [heq]; norm_num, ?_⟩
    intro s
    have hiff : -2 ^ 63 ≤ s ∧ s ≤ 2 ^ 63 - 1 ↔ (IntFormat.mk 64 true).Mem s := Iff.rfl
    rw [hiff]
    constructor
    · intro hs
      refine ⟨px.format.wrap s, px.format.wrap_mem s, ?_⟩
      rw [IntFormat.wrap_wrap_of_width_le (by rw [heq]), IntFormat.wrap_of_mem _ hs]
    · rintro ⟨v, -, rfl⟩
      exact IntFormat.wrap_mem _ _

section

variable {t : IorTests} (hw : px.format.width ≤ 64) (hconsts : ∀ c ∈ t.consts, px.format.Mem c)
include hw hconsts

omit [DecidableEq ξ] [DecidableEq ω] in
lemma mem_consts_iff {v : Int} (hv : px.format.Mem v) :
    v ∈ t.consts ↔ (getExtValue v).toInt ∈ t.rVals.map Int64.toInt := by
  simp only [IorTests.rVals, List.map_map, List.mem_map, Function.comp, toInt_getExtValue]
  constructor
  · intro h
    exact ⟨v, h, rfl⟩
  · rintro ⟨c, hc, heq⟩
    rwa [← IntFormat.wrap_inj_of_width_le (g := ⟨64, true⟩) hw (hconsts c hc) hv heq]

lemma runTest_iff (hpx : px.isPrimitiveInteger = true) {n : PrimType}
    (hn : n.isPrimitiveInteger = true) {first k : Int} (hk : 1 ≤ k) (hk' : k < 2 ^ 64 - 1)
    (hrun : IsRun t.rVals first k) :
    (∀ v, px.format.Mem v → (Accepts n k (v - first) ↔ v ∈ t.consts)) ↔ Fits px n k := by
  obtain ⟨lo, hi, hspan, hbounds⟩ := exists_bounds px hw
  have hends : ∀ i, first ≤ i → i ≤ first + k → lo ≤ i ∧ i ≤ hi := by
    intro i hi hi'
    obtain ⟨r, hr, rfl⟩ := List.mem_map.mp ((hrun i).mpr ⟨hi, hi'⟩)
    obtain ⟨c, hc, rfl⟩ := List.mem_map.mp hr
    exact (hbounds _).mpr ⟨c, hconsts c hc, rfl⟩
  have hlo := (hends first (by omega) (by omega)).1
  have hhi := (hends (first + k) (by omega) (by omega)).2
  rw [← accepts_run_iff hpx hw hn hspan hlo hhi hk hk']
  have haccepts : ∀ v, Accepts n k ((getExtValue v).toInt - first) ↔ Accepts n k (v - first) := by
    intro v
    apply accepts_congr
    have hdvd : (2 : Int) ^ testWidth n ∣ 2 ^ 64 := pow_dvd_pow 2 (testWidth_le n)
    have hemod : (getExtValue v).toInt % 2 ^ 64 = v % 2 ^ 64 := by
      rw [toInt_getExtValue]
      exact IntFormat.wrap_emod _ v
    rw [Int.sub_emod, ← Int.emod_emod_of_dvd (getExtValue v).toInt hdvd, hemod,
      Int.emod_emod_of_dvd _ hdvd, ← Int.sub_emod]
  constructor
  · intro h s hs hs'
    obtain ⟨v, hv, rfl⟩ := (hbounds s).mp ⟨hs, hs'⟩
    rw [haccepts, h v hv, mem_consts_iff hw hconsts hv, hrun]
  · intro h v hv
    obtain ⟨hs, hs'⟩ := (hbounds _).mpr ⟨v, hv, rfl⟩
    rw [← haccepts, h _ hs hs', mem_consts_iff hw hconsts hv, hrun]

end

/-- The folded expression of a tree of tests is right for all values of `x` exactly if a run of
constants fits its type and the type of the node. -/
theorem extFoldIor_iff (x : ξ) (hpx : px.isPrimitiveInteger = true) (hw : px.format.width ≤ 64)
    (op : IorOp) (nPrimType : PrimType) (hn : nPrimType.isPrimitiveInteger = true)
    (opnd0 opnd1 : IorTests)
    (hconsts : ∀ c ∈ opnd0.consts ++ opnd1.consts, px.format.Mem c) :
    ∃ result : BaseNode ξ ω, Outcome.Settles
        (extFoldIor op nPrimType (opnd0.node x px) (opnd1.node x px)) (.done result) ∧
      ((∀ (value : ξ → Int) (others : ω → Int), px.format.Mem (value x) →
          (result.eval value others ≠ 0 ↔ value x ∈ opnd0.consts ++ opnd1.consts)) ↔
        ∀ first k : Int, 1 ≤ k → k < 2 ^ 64 - 1 →
          IsRun ((opnd0.consts ++ opnd1.consts).map getExtValue) first k → Fits px nPrimType k) := by
  have htree : (IorTests.ior op nPrimType opnd0 opnd1).consts = opnd0.consts ++ opnd1.consts := rfl
  have hrVals : (IorTests.ior op nPrimType opnd0 opnd1).rVals =
      (opnd0.consts ++ opnd1.consts).map getExtValue := rfl
  rw [← hrVals]
  simp only [← htree] at hconsts ⊢
  generalize ht : IorTests.ior op nPrimType opnd0 opnd1 = t at *
  obtain ⟨result, hsettles, hofRun, hofNone⟩ :=
    extFoldIor_settles (ω := ω) (x := x) hpx op nPrimType ht.symm
  refine ⟨result, hsettles, ?_⟩
  by_cases hrun : ∃ first k : Int, 1 ≤ k ∧ k < 2 ^ 64 - 1 ∧ IsRun t.rVals first k
  · obtain ⟨first, k, hk, hk', hrun⟩ := hrun
    rw [hofRun first k hk hk' hrun]
    have hfits : (∀ first k : Int, 1 ≤ k → k < 2 ^ 64 - 1 → IsRun t.rVals first k →
        Fits px nPrimType k) ↔ Fits px nPrimType k := by
      constructor
      · intro h
        exact h first k hk hk' hrun
      · intro h first' k' hk₁ hk₂ hrun'
        rw [(hrun'.unique hrun (by omega) (by omega)).2]
        exact h
    rw [hfits, ← runTest_iff hw hconsts hpx hn hk hk' hrun]
    constructor
    · intro h v hv
      rw [← h (fun _ => v) (fun _ => 0) hv, eval_runTest]
    · intro h value others hv
      rw [eval_runTest, h _ hv]
  · rw [hofNone hrun]
    refine iff_of_true ?_ ?_
    · intro value others _
      exact t.eval_node x px value others
    · intro first k hk hk' h
      exact absurd ⟨first, k, hk, hk', h⟩ hrun

omit [Target] in
/-- `x == 0 || x == 1` with nodes of type `u32` over a variable of type `u32`. -/
theorem extFoldIor_iff_zeroOne :
    letI := Target.lp64
    ∃ result : BaseNode Unit Empty, Outcome.Settles
        (extFoldIor .cior .u32 ((IorTests.eq 0).node () .u32) ((IorTests.eq 1).node () .u32))
        (.done result) ∧
      ((∀ (value : Unit → Int) (others : Empty → Int), PrimType.u32.format.Mem (value ()) →
          (result.eval value others ≠ 0 ↔ value () ∈ [0] ++ [1])) ↔
        ∀ first k : Int, 1 ≤ k → k < 2 ^ 64 - 1 →
          IsRun (([0] ++ [1]).map getExtValue) first k → Fits .u32 .u32 k) := by
  let _ := Target.lp64
  exact extFoldIor_iff () rfl (by decide) .cior .u32 rfl (.eq 0) (.eq 1) (by decide)

omit [Target] in
/-- `x == 0 || x == 1` with nodes of type `u32` over a variable of type `i64`: the folded
expression also holds of `2 ^ 32`. -/
theorem not_extFoldIor_wideVariable :
    letI := Target.lp64
    ¬∀ (px : PrimType) (_ : px.isPrimitiveInteger = true) (_ : px.format.width ≤ 64) (op : IorOp)
      (nPrimType : PrimType) (_ : nPrimType.isPrimitiveInteger = true) (opnd0 opnd1 : IorTests)
      (_ : ∀ c ∈ opnd0.consts ++ opnd1.consts, px.format.Mem c),
      ∃ result : BaseNode Unit Empty, Outcome.Settles
        (extFoldIor op nPrimType (opnd0.node () px) (opnd1.node () px)) (.done result) ∧
        ∀ (value : Unit → Int) (others : Empty → Int), px.format.Mem (value ()) →
          (result.eval value others ≠ 0 ↔ value () ∈ opnd0.consts ++ opnd1.consts) := by
  let _ := Target.lp64
  intro h
  obtain ⟨result, ⟨-, n, hn⟩, hright⟩ :=
    h .i64 rfl (by decide) .cior .u32 rfl (.eq 0) (.eq 1) (by decide)
  have hfold : Outcome.done result = .done (runTest () .u32 0 1) := by
    rw [← hn (n + 4) (by omega)]
    rfl
  cases hfold
  have := (hright (fun _ => 2 ^ 32) Empty.elim (by decide)).mp (by decide)
  revert this
  decide

end ExtConstantFold
end Maple
