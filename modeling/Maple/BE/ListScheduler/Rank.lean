import Maple.Lib.IntFormat
import Maple.Lib.Ranking

/-!
# The ranking of the ready list

The comparators of `schedule_heuristic.h` and the two relations that `SortReadyList` sorts by.
Differences of `uint32`, `size_t` and `int64` are cut down to `int`.
-/

namespace Maple
namespace ListScheduler

inductive DepType where
  | dependenceTypeTrue | dependenceTypeOutput | dependenceTypeAnti | dependenceTypeControl
  | dependenceTypeMemAccess | dependenceTypeMembar | dependenceTypeThrow
  | dependenceTypeSeparator | dependenceTypeNone
  deriving DecidableEq, Repr

inductive SlotType where
  | slotNone | slot0 | slot1 | slotAny | slots
  deriving DecidableEq, Repr

/-- The number of the enumerator. -/
def SlotType.toInt : SlotType → Int
  | slotNone => 0
  | slot0 => 1
  | slot1 => 2
  | slotAny => 3
  | slots => 4

/-- `MemOperand` with its base register and the value of its offset; `isBOI` says whether the
addressing mode is `kBOI`. -/
structure MemOperand where
  isBOI : Bool
  baseRegister : Nat
  offsetOperand : Option Int
  deriving DecidableEq, Repr

/-- What the comparators read of a node and its instruction. -/
structure DepNode where
  id : Nat
  isLoad : Bool
  isStore : Bool
  isLoadPair : Bool
  isStorePair : Bool
  memOpnd : Option MemOperand
  delay : Nat
  eStart : Nat
  lStart : Nat
  /-- The instruction numbers and the types of the predecessor links. -/
  preds : List (Nat × DepType)
  succsSize : Nat
  latency : Int
  slot : SlotType
  unitKind : BitVec 32
  deriving DecidableEq, Repr

namespace DepNode

variable (n : DepNode)

def isMemAccess : Bool := n.isLoad || n.isStore || n.isLoadPair || n.isStorePair

def isLoadStorePair : Bool := n.isLoadPair || n.isStorePair

end DepNode

/-- The type `int`. -/
def intFormat : IntFormat := ⟨32, true⟩

/-- `static_cast<int>(x - y)`. -/
def intDiff (x y : Int) : Int := intFormat.wrap (x - y)

/-! ### The comparators -/

def compareDelay (node1 node2 : DepNode) : Int := intDiff node1.delay node2.delay

def compareDataCache (enableIrrelevant : Bool) (node1 node2 : DepNode) : Int :=
  if node1.isMemAccess && node2.isMemAccess then
    -- need the same access byte
    if node1.isLoadStorePair != node2.isLoadStorePair then 0
    else
      match node1.memOpnd, node2.memOpnd with
      | some memOpnd1, some memOpnd2 =>
        if memOpnd1.isBOI && memOpnd2.isBOI then
          if memOpnd1.baseRegister = memOpnd2.baseRegister then
            match memOpnd1.offsetOperand, memOpnd2.offsetOperand with
            | none, none => 0
            | none, some _ => 1
            | some _, none => -1
            | some ofst1, some ofst2 => intDiff ofst2 ofst1
          else 0
        -- schedule load before store
        else if (node1.isLoad || node1.isLoadPair) && (node2.isStore || node2.isStorePair) then 1
        else if (node2.isLoad || node2.isLoadPair) && (node1.isStore || node1.isStorePair) then -1
        else 0
      | _, _ => 0
  else if enableIrrelevant && node1.isMemAccess then
    if node1.isLoad || node1.isLoadPair then 1 else -1
  else if enableIrrelevant && node2.isMemAccess then
    if node2.isLoad || node2.isLoadPair then -1 else 1
  else 0

/-- The type of the last link from the instruction that was scheduled last. -/
def depTypeOfLast (lastSchedInsnId : Nat) (node : DepNode) : DepType :=
  node.preds.foldl (fun type (fromId, depType) =>
    if lastSchedInsnId ≠ 0 ∧ fromId = lastSchedInsnId then depType else type) .dependenceTypeNone

/-- The classes of dependences in `CompareClassOfLastScheduledNode`. -/
def typeClass : DepType → Option Int
  | .dependenceTypeTrue => some 1
  | .dependenceTypeAnti | .dependenceTypeOutput => some 2
  | .dependenceTypeSeparator => none
  | .dependenceTypeNone => some 4
  | _ => some 3

/-- `CompareClassOfLastScheduledNode`, which stops at a separator. -/
def compareClassOfLastScheduledNode (lastSchedInsnId : Nat) (node1 node2 : DepNode) :
    Option Int := do
  let typeClass1 ← typeClass (depTypeOfLast lastSchedInsnId node1)
  let typeClass2 ← typeClass (depTypeOfLast lastSchedInsnId node2)
  return typeClass1 - typeClass2

def compareEStart (node1 node2 : DepNode) : Int := intDiff node2.eStart node1.eStart

def compareLStart (node1 node2 : DepNode) : Int := intDiff node2.lStart node1.lStart

def compareCost (node1 node2 : DepNode) : Int := intDiff node1.latency node2.latency

/-- `IsUseUnitKind`: the loop over the set bits, the lowest one first. -/
def isUseUnitKind (maxUnitIdx : Nat) (depNode : DepNode) : Bool :=
  (List.range 32).any fun i => depNode.unitKind.getLsbD i && i + 1 == maxUnitIdx

def compareUnitKindNum (maxUnitIdx : Nat) (node1 node2 : DepNode) : Int :=
  let use1 := isUseUnitKind maxUnitIdx node1
  let use2 := isUseUnitKind maxUnitIdx node2
  if use1 && use2 || !use1 && !use2 then 0
  else if !use2 then 1
  else -1

/-- The slot that `CompareSlotType` compares. -/
def slotOf (node : DepNode) : SlotType := if node.slot = .slots then .slot0 else node.slot

def compareSlotType (node1 node2 : DepNode) : Int := (slotOf node2).toInt - (slotOf node1).toInt

def compareSuccNodeSize (node1 node2 : DepNode) : Int := intDiff node1.succsSize node2.succsSize

def compareInsnID (node1 node2 : DepNode) : Int := intDiff node2.id node1.id

/-! ### The rankings -/

def delayRankScheduleInsns (lastSchedInsnId : Nat) (node1 node2 : DepNode) : Option Bool :=
  let p1 := compareDelay node1 node2
  if p1 ≠ 0 then some (decide (0 < p1))
  else
    let p2 := compareDataCache false node1 node2
    if p2 ≠ 0 then some (decide (0 < p2))
    else
      (compareClassOfLastScheduledNode lastSchedInsnId node1 node2).map fun p3 =>
        if p3 ≠ 0 then decide (0 < p3)
        else
          let p4 := compareSuccNodeSize node1 node2
          if p4 ≠ 0 then decide (0 < p4)
          else
            let p6 := compareInsnID node1 node2
            if p6 ≠ 0 then decide (0 < p6)
            else true

def criticalPathRankScheduleInsns (maxUnitIdx : Nat) : DepNode → DepNode → Bool :=
  Ranking.byFirst true [compareLStart, compareCost, compareEStart, compareSuccNodeSize,
    compareUnitKindNum maxUnitIdx, compareSlotType, compareInsnID]

/-- The relation that the ready list is sorted by. -/
def DelayBefore (lastSchedInsnId : Nat) (node1 node2 : DepNode) : Prop :=
  delayRankScheduleInsns lastSchedInsnId node1 node2 = some true

def CriticalPathBefore (maxUnitIdx : Nat) (node1 node2 : DepNode) : Prop :=
  criticalPathRankScheduleInsns maxUnitIdx node1 node2 = true

/-! ### Every node comes before itself -/

section

variable {S : Set DepNode} {lastSchedInsnId maxUnitIdx : Nat} {a b n : DepNode}

/-- The check of `CompareClassOfLastScheduledNode`. -/
def NoSeparator (lastSchedInsnId : Nat) (n : DepNode) : Prop :=
  depTypeOfLast lastSchedInsnId n ≠ .dependenceTypeSeparator

/-- The class of a node behind the check. -/
def classOf (lastSchedInsnId : Nat) (n : DepNode) : Int :=
  (typeClass (depTypeOfLast lastSchedInsnId n)).getD 0

lemma typeClass_eq (h : NoSeparator lastSchedInsnId n) :
    typeClass (depTypeOfLast lastSchedInsnId n) = some (classOf lastSchedInsnId n) := by
  unfold NoSeparator at h
  unfold classOf
  cases hlast : depTypeOfLast lastSchedInsnId n <;> simp_all [typeClass]

/-- The comparators of `DelayRankScheduleInsns`. -/
def delayComparators (lastSchedInsnId : Nat) : List (DepNode → DepNode → Int) :=
  [compareDelay, compareDataCache false,
    fun a b => classOf lastSchedInsnId a - classOf lastSchedInsnId b,
    compareSuccNodeSize, compareInsnID]

lemma delayRankScheduleInsns_eq (ha : NoSeparator lastSchedInsnId a)
    (hb : NoSeparator lastSchedInsnId b) :
    delayRankScheduleInsns lastSchedInsnId a b =
      some (Ranking.byFirst true (delayComparators lastSchedInsnId) a b) := by
  have hclass : compareClassOfLastScheduledNode lastSchedInsnId a b =
      some (classOf lastSchedInsnId a - classOf lastSchedInsnId b) := by
    rw [compareClassOfLastScheduledNode, typeClass_eq ha, typeClass_eq hb]
    rfl
  simp only [delayRankScheduleInsns, hclass, delayComparators, Ranking.byFirst, Option.map_some]
  split_ifs <;> rfl

lemma delayBefore_iff (ha : NoSeparator lastSchedInsnId a) (hb : NoSeparator lastSchedInsnId b) :
    DelayBefore lastSchedInsnId a b ↔
      Ranking.byFirst true (delayComparators lastSchedInsnId) a b = true := by
  rw [DelayBefore, delayRankScheduleInsns_eq ha hb, Option.some_inj]

@[simp] lemma intDiff_self (x : Int) : intDiff x x = 0 := by
  rw [intDiff, sub_self]
  rfl

lemma compareDataCache_self (n : DepNode) :
    compareDataCache false n n = 0 ∨ compareDataCache false n n = 1 := by
  cases hmem : n.memOpnd with
  | none => simp [compareDataCache, hmem]
  | some m => cases hofst : m.offsetOperand <;> simp [compareDataCache, hmem, hofst] <;> grind

lemma delayBefore_self (h : NoSeparator lastSchedInsnId n) : DelayBefore lastSchedInsnId n n := by
  have hrest : Ranking.byFirst true [fun a b => classOf lastSchedInsnId a -
      classOf lastSchedInsnId b, compareSuccNodeSize, compareInsnID] n n = true :=
    Ranking.byFirst_self (by simp [compareSuccNodeSize, compareInsnID])
  rw [delayBefore_iff h h, delayComparators,
    Ranking.byFirst_of_eq_zero (by simp [compareDelay])]
  rcases compareDataCache_self n with hzero | hone
  · rw [Ranking.byFirst_of_eq_zero hzero]
    exact hrest
  · rw [Ranking.byFirst_of_ne_zero (by omega), hone]
    rfl

lemma criticalPathBefore_self : CriticalPathBefore maxUnitIdx n n := by
  apply Ranking.byFirst_self
  simp [compareLStart, compareCost, compareEStart, compareSuccNodeSize, compareUnitKindNum,
    compareSlotType, compareInsnID]

/-- The two relations are strict weak orders of no nodes at all. -/
theorem rankScheduleInsns_strictWeakOrderOn_iff (S : Set DepNode) (lastSchedInsnId maxUnitIdx : Nat)
    (hsep : ∀ n ∈ S, NoSeparator lastSchedInsnId n) :
    (Ranking.StrictWeakOrderOn (DelayBefore lastSchedInsnId) S ↔ S = ∅) ∧
      (Ranking.StrictWeakOrderOn (CriticalPathBefore maxUnitIdx) S ↔ S = ∅) :=
  ⟨Ranking.strictWeakOrderOn_iff_of_refl fun n hn => delayBefore_self (hsep n hn),
    Ranking.strictWeakOrderOn_iff_of_refl fun _ _ => criticalPathBefore_self⟩

end

/-- Three loads, where the first and the last one use the same base register. -/
def loadOf (id baseRegister : Nat) (offset : Int) : DepNode where
  id := id
  isLoad := true
  isStore := false
  isLoadPair := false
  isStorePair := false
  memOpnd := some ⟨true, baseRegister, some offset⟩
  delay := 4
  eStart := 0
  lStart := 0
  preds := []
  succsSize := 1
  latency := 4
  slot := .slot0
  unitKind := 0

/-- A node comes before itself in both relations, and three loads come before each other in a
circle: two of them by their offsets, the other pairs by their numbers. -/
theorem rankScheduleInsns_loads :
    ¬ Ranking.StrictWeakOrderOn (DelayBefore 0) {loadOf 1 1 8} ∧
      ¬ Ranking.StrictWeakOrderOn (CriticalPathBefore 0) {loadOf 1 1 8} ∧
      DelayBefore 0 (loadOf 1 1 8) (loadOf 2 2 0) ∧ DelayBefore 0 (loadOf 2 2 0) (loadOf 3 1 0) ∧
      ¬ DelayBefore 0 (loadOf 1 1 8) (loadOf 3 1 0) := by
  refine ⟨fun h => ?_, fun h => ?_, ?_, ?_, ?_⟩
  · exact h.irrefl _ rfl (by unfold DelayBefore; decide)
  · exact h.irrefl _ rfl (by unfold CriticalPathBefore; decide)
  all_goals unfold DelayBefore; decide

theorem rankScheduleInsns_strictWeakOrderOn_iff_load :
    (Ranking.StrictWeakOrderOn (DelayBefore 0) {loadOf 1 1 8} ↔ {loadOf 1 1 8} = (∅ : Set _)) ∧
      (Ranking.StrictWeakOrderOn (CriticalPathBefore 0) {loadOf 1 1 8} ↔
        {loadOf 1 1 8} = (∅ : Set _)) := by
  apply rankScheduleInsns_strictWeakOrderOn_iff
  rintro n rfl
  unfold NoSeparator
  decide

/-! ### The order of different nodes -/

section

variable {S : Set DepNode} {lastSchedInsnId maxUnitIdx : Nat}

end

end ListScheduler
end Maple
