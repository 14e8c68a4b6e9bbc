import Maple.IR.Branch
import Maple.IR.Opcode
import Maple.IR.PrimType
import Mathlib.Data.List.Sort

/-!
# The switch lowerer

`SwitchLowerer` turns a `switch` into equality tests, jump tables and a binary search. The sorted
case table is condensed into switch items: an item is one entry of the table, or a dense region
of it (its second component is then the index of the last entry of the region). Code is built for
slices of the list of items; a slice stands for the index pair `start`, `end` of the source.

The density of a region is computed in single precision; the outcome of that test is a parameter
`dense`.
-/

namespace Maple.SwitchLowerer

open Maple

abbrev CasePair := Int × LabelIdx

structure SwitchNode where
  opndType : PrimType
  defaultLabel : LabelIdx
  switchTable : List CasePair
  deriving DecidableEq, Repr

namespace SwitchNode

def getCasePair (stmt : SwitchNode) (idx : Nat) : CasePair := stmt.switchTable.getD idx (0, 0)

/-- The tag of an entry of the case table. -/
abbrev tag (stmt : SwitchNode) (idx : Nat) : Int := (stmt.getCasePair idx).1

/-- The label of an entry of the case table. -/
abbrev lab (stmt : SwitchNode) (idx : Nat) : LabelIdx := (stmt.getCasePair idx).2

def sortCasePair (stmt : SwitchNode) : SwitchNode :=
  { stmt with switchTable := stmt.switchTable.insertionSort fun l r => l.1 ≤ r.1 }

end SwitchNode

structure SwitchItem where
  first : Nat
  second : Nat
  deriving DecidableEq, Repr

/-- An item of a single entry. -/
def SwitchItem.isSparse (item : SwitchItem) : Bool := item.second == 0

/-- An item of a dense region. -/
def SwitchItem.isDense (item : SwitchItem) : Bool := item.second != 0

def kClusterSwitchCutoff : Nat := 5

/-- The density test of `FindClusters` in exact arithmetic: a density of 0.4, or of 0.2 for a
table below `kMaxRangeGotoTableSize` entries. -/
def denseRegion (entries lo hi : Int) : Bool :=
  decide (2 * (hi - lo) ≤ 5 * entries) ||
    (decide (hi - lo ≤ 5 * entries) && decide (hi - lo < 127))

section Clusters

variable (dense : Int → Int → Int → Bool) (stmt : SwitchNode)

/-- The inner loop of `FindClusters`: the largest `j` for which entries `i` to `j` are dense. -/
def findClusterEnd (i : Nat) : Nat → Option Nat
  | 0 => none
  | j + 1 =>
    if i < j + 1 then
      if kClusterSwitchCutoff ≤ j + 1 - i ∧
          dense (j + 1 - i) (stmt.tag i) (stmt.tag (j + 1)) then
        some (j + 1)
      else findClusterEnd i j
    else none

/-- `FindClusters`, from entry `i` on. -/
def findClusters : (fuel i : Nat) → List (Nat × Nat)
  | 0, _ => []
  | fuel + 1, i =>
    if i + kClusterSwitchCutoff < stmt.switchTable.length then
      match findClusterEnd dense stmt i (stmt.switchTable.length - 1) with
      | some j => (i, j) :: findClusters fuel (j + 1)
      | none => findClusters fuel (i + 1)
    else []

/-- `InitSwitchItems`, from entry `i` on. A cluster that is used up lies before `i`. -/
def initSwitchItems : (fuel i : Nat) → List (Nat × Nat) → List SwitchItem
  | 0, _, _ => []
  | fuel + 1, i, clusters =>
    if i < stmt.switchTable.length then
      match clusters with
      | [] => ⟨i, 0⟩ :: initSwitchItems fuel (i + 1) []
      | front :: rest =>
        if i = front.1 then ⟨i, front.2⟩ :: initSwitchItems fuel (front.2 + 1) rest
        else ⟨i, 0⟩ :: initSwitchItems fuel (i + 1) (front :: rest)
    else []

/-- The switch items of a sorted case table. -/
def switchItems : List SwitchItem :=
  let n := stmt.switchTable.length
  initSwitchItems stmt n 0 (findClusters dense stmt n 0)

end Clusters

/-! ### The nodes that are built -/

/-- A comparison of the switch operand with a constant of its type. -/
structure CompareNode where
  op : CmpOp
  const : Int
  deriving DecidableEq, Repr

abbrev Code := List (Stmt CompareNode)

section Build

variable [Target] (stmt : SwitchNode) (newLabelIdx : LabelIdx)

/-- The table entries for the tags strictly between two case tags. -/
def gapEntries (tagOffset lastCaseTag caseTag : Int) : List (Nat × LabelIdx) :=
  (List.range (caseTag - lastCaseTag - 1).toNat).flatMap fun k =>
    let curTag := ((lastCaseTag + 1 + k - tagOffset) % 2 ^ 16).toNat
    if stmt.defaultLabel ≠ 0 then [(curTag, stmt.defaultLabel)]
    else if newLabelIdx ≠ 0 then [(curTag, newLabelIdx)]
    else []

/-- The loop of `BuildRangeGotoNode` over the `n` entries from index `i` on. -/
def rangeGotoEntries (tagOffset : Int) : (n i : Nat) → (lastCaseTag : Int) → List (Nat × LabelIdx)
  | 0, _, _ => []
  | n + 1, i, lastCaseTag =>
    gapEntries stmt newLabelIdx tagOffset lastCaseTag (stmt.tag i) ++
      (((stmt.tag i - tagOffset) % 2 ^ 16).toNat, stmt.lab i) ::
        rangeGotoEntries tagOffset n (i + 1) (stmt.tag i)

/-- The format of the `int32` fields that a tag is stored to. -/
def int32 : IntFormat := ⟨32, true⟩

def buildRangeGotoNode (startIdx endIdx : Nat) : RangeGotoNode where
  tagOffset := int32.wrap (stmt.tag startIdx)
  rangegotoTable :=
    (0, stmt.lab startIdx) ::
      rangeGotoEntries stmt newLabelIdx (int32.wrap (stmt.tag startIdx)) (endIdx - startIdx)
        (startIdx + 1) (stmt.tag startIdx)

def buildCmpNode (op : CmpOp) (idx : Nat) : CompareNode :=
  ⟨op, stmt.opndType.format.wrap (stmt.tag idx)⟩

/-- `BuildGotoNode(-1)`: a jump to the default label, if there is one. -/
def gotoDefault : Code := if stmt.defaultLabel = 0 then [] else [.goto stmt.defaultLabel]

/-- `BuildCondGotoNode(-1, OP_brtrue, cond)`. -/
def condGotoDefault (cond : CompareNode) : Code :=
  if stmt.defaultLabel = 0 then [] else [.brtrue cond stmt.defaultLabel]

/-- The jump table of a dense item, guarded by a comparison unless there is no default label. -/
def guardedRangeGoto (cond : CompareNode) (item : SwitchItem) (n : LabelIdx) : Code × LabelIdx :=
  let rangeGoto : Code := [.rangegoto (buildRangeGotoNode stmt newLabelIdx item.first item.second)]
  if stmt.defaultLabel = 0 then (rangeGoto, n) else lowerIfStmt cond rangeGoto [] n

/-- What a loop of `BuildCodeForSwitchItems` leaves behind: the code it has emitted, the items
that remain, whether their bound has been checked, and the next free label. -/
structure Peeled where
  code : Code
  items : List SwitchItem
  checked : Bool
  next : LabelIdx

/-- The comparison with the lowest tag of a dense item, unless it has been made or can be
omitted. -/
def lowCheck (lowBlockNodeChecked : Bool) (item : SwitchItem) : Code :=
  if lowBlockNodeChecked || stmt.opndType.isUnsignedInteger && stmt.tag item.first == 0 then []
  else condGotoDefault stmt (buildCmpNode stmt .lt item.first)

/-- `lowBlockNodeChecked` after a dense item at the low side; a last item leaves it set. -/
def lowChecked (item : SwitchItem) : List SwitchItem → Bool
  | [] => true
  | next :: _ => stmt.tag item.second + 1 == stmt.tag next.first

/-- The loop over the dense items at the low side. -/
def peelLow : List SwitchItem → (lowBlockNodeChecked : Bool) → LabelIdx → Peeled
  | [], low, n => ⟨[], [], low, n⟩
  | item :: items, low, n =>
    if item.second = 0 then ⟨[], item :: items, low, n⟩
    else
      let table := guardedRangeGoto stmt newLabelIdx (buildCmpNode stmt .le item.second) item n
      let rest := peelLow items (lowChecked stmt item items) table.2
      { rest with code := lowCheck stmt low item ++ table.1 ++ rest.code }

/-- The comparison with the highest tag of a dense item, unless it has been made. -/
def highCheck (highBlockNodeChecked : Bool) (item : SwitchItem) : Code :=
  if highBlockNodeChecked then [] else condGotoDefault stmt (buildCmpNode stmt .gt item.second)

/-- `highBlockNodeChecked` after a dense item at the high side; a last item leaves it set. -/
def highChecked (item : SwitchItem) : List SwitchItem → Bool
  | [] => true
  | prev :: _ =>
    stmt.tag item.first - 1 == stmt.tag prev.first ||
      stmt.tag item.first - 1 == stmt.tag prev.second

/-- The loop over the dense items at the high side; the items come last first. -/
def peelHigh : List SwitchItem → (highBlockNodeChecked : Bool) → LabelIdx → Peeled
  | [], high, n => ⟨[], [], high, n⟩
  | item :: items, high, n =>
    if item.second = 0 then ⟨[], item :: items, high, n⟩
    else
      let table := guardedRangeGoto stmt newLabelIdx (buildCmpNode stmt .ge item.first) item n
      let rest := peelHigh items (highChecked stmt item items) table.2
      { rest with code := highCheck stmt high item ++ table.1 ++ rest.code }

/-- The equality test of one entry. -/
def equalityTest (idx : Nat) : Stmt CompareNode :=
  .brtrue (buildCmpNode stmt .eq idx) (stmt.lab idx)

/-- `lowBlockNodeChecked` after the equality test of an item. -/
def lowCheckedAfterTest (low : Bool) (item : SwitchItem) : List SwitchItem → Bool
  | [] => low
  | next :: _ => low && stmt.tag item.first + 1 == stmt.tag next.first

/-- The loop of equality tests, in the order of the items. The condition of the last test can be
omitted if both bounds have been checked. -/
def equalityTests (high : Bool) : List SwitchItem → (lowBlockNodeChecked : Bool) → LabelIdx → Peeled
  | [], low, n => ⟨[], [], low, n⟩
  | item :: items, low, n =>
    if item.second ≠ 0 then ⟨[], item :: items, low, n⟩
    else
      let test := if items = [] ∧ low ∧ high then .goto (stmt.lab item.first)
        else equalityTest stmt item.first
      let rest := equalityTests high items (lowCheckedAfterTest stmt low item items) n
      { rest with code := test :: rest.code }

/-- The order of `freq2case`: by frequency, then by index, the largest first. -/
def freqGe (a b : Int × Nat) : Prop := b.1 < a.1 ∨ a.1 = b.1 ∧ b.2 ≤ a.2

instance (a b : Int × Nat) : Decidable (freqGe a b) := inferInstanceAs (Decidable (_ ∨ _))

/-- `freq2case`: the frequencies of the sparse items at the low side, sorted. -/
def freq2case (label2Freq : LabelIdx → Int) (items : List SwitchItem) : List (Int × Nat) :=
  ((items.takeWhile SwitchItem.isSparse).map fun item =>
    (label2Freq (stmt.lab item.first), item.first)).insertionSort freqGe

/-- Whether the equality tests are reordered: not all of the frequencies are the same. -/
def freqPriority (label2Freq : LabelIdx → Int) (items : List SwitchItem) : Bool :=
  match (freq2case stmt label2Freq items).head?, (freq2case stmt label2Freq items).getLast? with
  | some hottest, some coldest => hottest.1 != coldest.1
  | _, _ => false

/-- The equality tests in the order of the frequencies. -/
def reorderedTests (label2Freq : LabelIdx → Int) (items : List SwitchItem)
    (low : Bool) (n : LabelIdx) : Peeled :=
  let sparse := items.takeWhile SwitchItem.isSparse
  let rest := items.dropWhile SwitchItem.isSparse
  { code := (freq2case stmt label2Freq items).map fun f2c => equalityTest stmt f2c.2
    items := rest
    checked :=
      match sparse.getLast? with
      | some last => lowCheckedAfterTest stmt low last rest
      | none => low
    next := n }

/-- The equality tests of `BuildCodeForSwitchItems`; `label2Freq` is the frequency of each label
when profile data is used. -/
def equalityPart (label2Freq : Option (LabelIdx → Int)) (items : List SwitchItem)
    (low high : Bool) (n : LabelIdx) : Peeled :=
  match label2Freq with
  | some freq =>
    if freqPriority stmt freq items then reorderedTests stmt freq items low n
    else equalityTests stmt high items low n
  | none => equalityTests stmt high items low n

/-- The middle of two tags: int64 arithmetic that cannot overflow for either choice of signs. -/
def middleTag (lowestTag highestTag : Int) : Int :=
  if lowestTag < 0 ↔ highestTag < 0 then (highestTag - lowestTag).tdiv 2 + lowestTag
  else (highestTag + lowestTag).tdiv 2

/-- The slices before and from the mid-point of the binary search on. -/
def splitAtMiddle (item : SwitchItem) (items : List SwitchItem) :
    List SwitchItem × List SwitchItem :=
  let lowestTag := stmt.tag item.first
  let highestTag := stmt.tag (items.getLastD item).first
  let below := fun i : SwitchItem => decide (stmt.tag i.first < middleTag lowestTag highestTag)
  ((item :: items).takeWhile below, (item :: items).dropWhile below)

/-- `leftHighBNdChecked`, for the items next to the mid-point. -/
def leftHighChecked (prev mid : SwitchItem) : Bool :=
  stmt.tag prev.first + 1 == stmt.tag mid.first || stmt.tag prev.second + 1 == stmt.tag mid.first

/-- The block that has been built, the next free label, and `jumpToDefaultBlockGenerated`. -/
structure Built where
  code : Code
  next : LabelIdx
  jumpToDefault : Bool

def Built.prepend (code : Code) (built : Built) : Built := { built with code := code ++ built.code }

/-- The default jump that ends a block unless both bounds have been checked. -/
def finishBlock (low high : Bool) (n : LabelIdx) (dft : Bool) : Built :=
  if low && high then ⟨[], n, dft⟩
  else ⟨gotoDefault stmt, n, dft || stmt.defaultLabel != 0⟩

end Build

section Lower

variable [Target] (stmt : SwitchNode) (label2Freq : Option (LabelIdx → Int)) (numItems : Nat)

/-- The arguments of a recursive call and what it builds. -/
abbrev BuildFn := List SwitchItem → (low high : Bool) → LabelIdx → (dft : Bool) → Built

/-- A slice of few items: equality tests, and a recursive call from the first dense item on. -/
def testsBlock (recur : BuildFn) : BuildFn := fun items low high n dft =>
  let tests := equalityPart stmt label2Freq items low high n
  match tests.items with
  | [] => (finishBlock stmt tests.checked high n dft).prepend tests.code
  | _ :: _ => (recur tests.items tests.checked high n dft).prepend tests.code

/-- The binary search: one recursive call for each side of the mid-point. -/
def searchBlock (recur : BuildFn) (item : SwitchItem) : BuildFn := fun items low high n dft =>
  let (left, right) := splitAtMiddle stmt item items
  match left.getLast?, right with
  | some prev, mid :: _ =>
    let thenPart := recur left low (leftHighChecked stmt prev mid) n dft
    let elsePart := recur right true high thenPart.next thenPart.jumpToDefault
    let lowered :=
      lowerIfStmt (buildCmpNode stmt .lt mid.first) thenPart.code elsePart.code elsePart.next
    ⟨lowered.1, lowered.2, elsePart.jumpToDefault⟩
  | _, _ => ⟨[], n, dft⟩

/-- What is built for the items that the loops over the dense items have left. -/
def remainingBlock (recur : BuildFn) : BuildFn
  | [], low, high, n, dft => finishBlock stmt low high n dft
  | item :: items, low, high, n, dft =>
    if items = [] ∧ low ∧ high then ⟨[.goto (stmt.lab item.first)], n, dft⟩
    else if items.length < kClusterSwitchCutoff then
      testsBlock stmt label2Freq recur (item :: items) low high n dft
    else if stmt.defaultLabel ≠ 0 then searchBlock stmt recur item items low high n dft
    else ⟨[], n, dft⟩

/-- `BuildCodeForSwitchItems` for a slice of the items. The recursive calls do not pass
`newLabelIdx` on. -/
def buildCodeForSwitchItems : (fuel : Nat) → LabelIdx → BuildFn
  | 0, _, _, _, _, n, dft => ⟨[], n, dft⟩
  | _ + 1, _, [], _, _, n, dft => ⟨[], n, dft⟩
  | fuel + 1, newLabelIdx, firstItem :: items, low, high, n, dft =>
    if stmt.defaultLabel = 0 ∧ numItems = 2 then
      let lastItem := items.getLastD firstItem
      ⟨[equalityTest stmt firstItem.first, .goto (stmt.lab lastItem.first)], n, dft⟩
    else
      let lowPart := peelLow stmt newLabelIdx (firstItem :: items) low n
      let highPart := peelHigh stmt newLabelIdx lowPart.items.reverse high lowPart.next
      (remainingBlock stmt label2Freq (buildCodeForSwitchItems fuel 0) highPart.items.reverse
        lowPart.checked highPart.checked highPart.next dft).prepend (lowPart.code ++ highPart.code)

end Lower

section LowerSwitch

variable [Target] (dense : Int → Int → Int → Bool) (label2Freq : Option (LabelIdx → Int))

/-- `LowerSwitch`; `n` is the next free label of the function. -/
def lowerSwitch (stmt : SwitchNode) (newLabelIdx n : LabelIdx) : Code :=
  if stmt.switchTable = [] then gotoDefault stmt
  else
    let sorted := stmt.sortCasePair
    let items := switchItems dense sorted
    let blk := buildCodeForSwitchItems sorted label2Freq items.length items.length newLabelIdx
      items false false n false
    if blk.jumpToDefault then blk.code else blk.code ++ gotoDefault sorted

end LowerSwitch

/-! ### Execution -/

def CompareNode.holds (c : CompareNode) (x : Int) : Bool := c.op.eval x c.const

/-- A `rangegoto` selects the entry at position `x - tagOffset`, computed in the type of the
operand. -/
def tableIndex [Target] (opndType : PrimType) (node : RangeGotoNode) (x : Int) : Nat :=
  ((x - node.tagOffset) % opndType.format.modulus).toNat

/-- Execution of lowered code for an operand value. -/
def exec [Target] (opndType : PrimType) (x : Int) (code : Code) : ForwardCode.Outcome LabelIdx :=
  Stmt.exec CompareNode.holds (tableIndex opndType) x code

end Maple.SwitchLowerer
