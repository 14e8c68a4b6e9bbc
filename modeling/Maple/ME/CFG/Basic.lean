import Maple.Lib.While
import Mathlib.Data.List.Basic
import Mathlib.Logic.Function.Basic
import Mathlib.Algebra.Group.Nat.Defs

/-!
# Basic blocks of the middle end

The edges of the control flow graph are stored twice: in the `succ` of their source and in the
`pred` of their target.
-/

namespace Maple

/-- Blocks are identified by their ids. -/
abbrev BBId := Nat

/-- What the functions on edges read and write in a block. -/
structure BB where
  pred : List BBId
  succ : List BBId
  succFreq : List Nat
  frequency : Nat
  isEntry : Bool
  isExit : Bool
  /-- The operands of the phis in `phiList` and in `mePhiList`. -/
  phiOpnds : List (List Nat)
  deriving DecidableEq, Repr

/-- The graph. -/
abbrev CFG := BBId → BB

namespace CFG

def commonEntry : BBId := 0

def commonExit : BBId := 1

/-- `UINT32_MAX` stands for the end of a vector. -/
def uint32Max : Nat := 2 ^ 32 - 1

/-- The assertion of the functions that are not for the common entry and the common exit. -/
def notCommon (b : BBId) : Bool := b ≠ commonEntry && b ≠ commonExit

variable (profileUse : Bool)

/-- The list after `RemoveBBFromVector`; the index that it returns is that of the first
occurrence. -/
def removeBBFromVector (bb : BBId) (bbVec : List BBId) : List BBId := bbVec.erase bb

def removePhiOpnd (index : Nat) (b : BB) : Option BB :=
  if b.phiOpnds.all fun opnds => index < opnds.length then
    some { b with phiOpnds := b.phiOpnds.map fun opnds => opnds.eraseIdx index }
  else none

/-- `BB::RemoveBBFromPred` of the block `this`. -/
def removeBBFromPred (this bb : BBId) (updatePhi : Bool) (s : CFG) : Option CFG :=
  if bb ∈ (s this).pred then
    let index := (s this).pred.idxOf bb
    let removed := { s this with pred := removeBBFromVector bb (s this).pred }
    (if updatePhi then removePhiOpnd index removed else some removed).map
      fun b => Function.update s this b
  else none

/-- `BB::RemoveBBFromSucc` of the block `this`. -/
def removeBBFromSucc (this bb : BBId) (s : CFG) : CFG :=
  let b := s this
  let succFreq :=
    if bb ∈ b.succ ∧ b.succFreq ≠ [] ∧ (profileUse ∨ b.frequency ≠ 0) then
      b.succFreq.eraseIdx (b.succ.idxOf bb)
    else b.succFreq
  Function.update s this
    { b with succ := removeBBFromVector bb b.succ, succFreq := succFreq }

/-- Insertion at a position or at the end. -/
def insertAt (pos : Nat) (bb : BBId) (bbVec : List BBId) : List BBId :=
  if pos = uint32Max then bbVec ++ [bb] else bbVec.insertIdx pos bb

def setPred (this : BBId) (f : List BBId → List BBId) (s : CFG) : CFG :=
  Function.update s this { s this with pred := f (s this).pred }

def setSucc (this : BBId) (f : List BBId → List BBId) (s : CFG) : CFG :=
  Function.update s this { s this with succ := f (s this).succ }

/-- `SetAttributes(kBBAttrIsEntry)`. -/
def markEntry (this : BBId) (s : CFG) : CFG :=
  Function.update s this { s this with isEntry := true }

/-- `SetAttributes(kBBAttrIsExit)`. -/
def markExit (this : BBId) (s : CFG) : CFG :=
  Function.update s this { s this with isExit := true }

section Fields

variable (this b : BBId) (f : List BBId → List BBId) (s : CFG)

@[simp] lemma setSucc_pred : (setSucc this f s b).pred = (s b).pred := by
  by_cases h : b = this <;> simp [setSucc, h]

@[simp] lemma setSucc_succ_self : (setSucc this f s this).succ = f (s this).succ := by
  simp [setSucc]

@[simp] lemma setSucc_isEntry : (setSucc this f s b).isEntry = (s b).isEntry := by
  by_cases h : b = this <;> simp [setSucc, h]

@[simp] lemma setSucc_isExit : (setSucc this f s b).isExit = (s b).isExit := by
  by_cases h : b = this <;> simp [setSucc, h]

@[simp] lemma setPred_succ : (setPred this f s b).succ = (s b).succ := by
  by_cases h : b = this <;> simp [setPred, h]

@[simp] lemma setPred_pred_self : (setPred this f s this).pred = f (s this).pred := by
  simp [setPred]

@[simp] lemma setPred_isEntry : (setPred this f s b).isEntry = (s b).isEntry := by
  by_cases h : b = this <;> simp [setPred, h]

@[simp] lemma setPred_isExit : (setPred this f s b).isExit = (s b).isExit := by
  by_cases h : b = this <;> simp [setPred, h]

@[simp] lemma markEntry_pred : (markEntry this s b).pred = (s b).pred := by
  by_cases h : b = this <;> simp [markEntry, h]

@[simp] lemma markEntry_succ : (markEntry this s b).succ = (s b).succ := by
  by_cases h : b = this <;> simp [markEntry, h]

@[simp] lemma markEntry_isEntry : (markEntry this s b).isEntry = (b == this || (s b).isEntry) := by
  by_cases h : b = this <;> simp [markEntry, h]

@[simp] lemma markEntry_isExit : (markEntry this s b).isExit = (s b).isExit := by
  by_cases h : b = this <;> simp [markEntry, h]

@[simp] lemma markExit_pred : (markExit this s b).pred = (s b).pred := by
  by_cases h : b = this <;> simp [markExit, h]

@[simp] lemma markExit_succ : (markExit this s b).succ = (s b).succ := by
  by_cases h : b = this <;> simp [markExit, h]

@[simp] lemma markExit_isEntry : (markExit this s b).isEntry = (s b).isEntry := by
  by_cases h : b = this <;> simp [markExit, h]

@[simp] lemma markExit_isExit : (markExit this s b).isExit = (b == this || (s b).isExit) := by
  by_cases h : b = this <;> simp [markExit, h]

variable {this b}

lemma setSucc_succ_of_ne (h : b ≠ this) : (setSucc this f s b).succ = (s b).succ := by
  simp [setSucc, h]

lemma setPred_pred_of_ne (h : b ≠ this) : (setPred this f s b).pred = (s b).pred := by
  simp [setPred, h]

end Fields

def addPred (this predBB : BBId) (pos : Nat) (s : CFG) : Option CFG :=
  if (pos ≤ (s this).pred.length ∨ pos = uint32Max) ∧
    (predBB ∉ (s this).pred ∧ this ∉ (s predBB).succ) ∧ notCommon this ∧ notCommon predBB then
    some (setSucc predBB (· ++ [this]) (setPred this (insertAt pos predBB) s))
  else none

def addSucc (this succBB : BBId) (pos : Nat) (s : CFG) : Option CFG :=
  if (pos ≤ (s this).succ.length ∨ pos = uint32Max) ∧
    (succBB ∉ (s this).succ ∧ this ∉ (s succBB).pred) ∧ notCommon this ∧ notCommon succBB then
    some (setPred succBB (· ++ [this]) (setSucc this (insertAt pos succBB) s))
  else none

def removePred (this predBB : BBId) (updatePhi : Bool) (s : CFG) : Option CFG :=
  if notCommon this && notCommon predBB then
    (removeBBFromPred this predBB updatePhi s).map (removeBBFromSucc profileUse predBB this)
  else none

def removeSucc (this succBB : BBId) (updatePhi : Bool) (s : CFG) : Option CFG :=
  if notCommon this && notCommon succBB then
    (removeBBFromPred succBB this updatePhi s).map (removeBBFromSucc profileUse this succBB)
  else none

def removeAllPred (fuel : Nat) (this : BBId) : CFG → Outcome CFG :=
  whileLoop (fun s => !(s this).pred.isEmpty)
    (fun s => removePred profileUse this ((s this).pred.getLastD 0) true s) fuel

def removeAllSucc (fuel : Nat) (this : BBId) (s : CFG) : Outcome CFG :=
  match whileLoop (fun s => !(s this).succ.isEmpty)
    (fun s => removeSucc profileUse this ((s this).succ.getLastD 0) true s) fuel s with
  | .done s => .done (Function.update s this { s this with succFreq := [] })
  | o => o

def replacePred (this old newPred : BBId) (s : CFG) : Option CFG :=
  if old ∈ (s this).pred ∧ this ∈ (s old).succ then
    let s := removeBBFromSucc profileUse old this s
    if this ∈ (s newPred).succ then removeBBFromPred this old true s
    else
      let s := setSucc newPred (· ++ [this]) s
      some (setPred this (fun pred => pred.replace old newPred) s)
  else none

def replaceSucc (this old newSucc : BBId) (updatePhi : Bool) (s : CFG) : Option CFG :=
  if old ∈ (s this).succ ∧ this ∈ (s old).pred then
    (removeBBFromPred old this updatePhi s).map fun s =>
      if this ∈ (s newSucc).pred then removeBBFromSucc profileUse this old s
      else
        let s := setPred newSucc (· ++ [this]) s
        setSucc this (fun succ => succ.replace old newSucc) s
  else none

/-- `BB::MoveAllPredToSucc`, with the common entry of the graph. -/
def moveAllPredToSucc (fuel : Nat) (this newSucc : BBId) (s : CFG) : Outcome CFG :=
  if (s this).isEntry then
    if this ∈ (s commonEntry).succ then
      let s := setSucc commonEntry (removeBBFromVector this) s
      let s := setSucc commonEntry (· ++ [newSucc]) s
      .done (markEntry newSucc s)
    else .assertionFailed
  else
    whileLoop (fun s => !(s this).pred.isEmpty)
      (fun s =>
        let firstPred := (s this).pred.headD 0
        if this ∈ (s firstPred).succ then replaceSucc profileUse firstPred this newSucc true s
        else some s) fuel s

/-- `BB::MoveAllSuccToPred`, with the common exit of the graph. -/
def moveAllSuccToPred (fuel : Nat) (this newPred : BBId) (s : CFG) : Outcome CFG :=
  if (s this).isExit then
    if this ∈ (s commonExit).pred then
      let s := setPred commonExit (removeBBFromVector this) s
      let s := setPred commonExit (· ++ [newPred]) s
      .done (markExit newPred s)
    else .assertionFailed
  else
    whileLoop (fun s => !(s this).succ.isEmpty)
      (fun s =>
        let firstSucc := (s this).succ.headD 0
        if this ∈ (s firstSucc).pred then replacePred profileUse firstSucc this newPred s
        else some s) fuel s

/-- The calls. -/
inductive Call where
  | addPred (this predBB : BBId) (pos : Nat)
  | addSucc (this succBB : BBId) (pos : Nat)
  | removePred (this predBB : BBId) (updatePhi : Bool)
  | removeSucc (this succBB : BBId) (updatePhi : Bool)
  | removeAllPred (this : BBId)
  | removeAllSucc (this : BBId)
  | replacePred (this old newPred : BBId)
  | replaceSucc (this old newSucc : BBId) (updatePhi : Bool)
  | moveAllPredToSucc (this newSucc : BBId)
  | moveAllSuccToPred (this newPred : BBId)
  deriving DecidableEq, Repr

/-- A call, whose loop may have less than `fuel` rounds. -/
def exec (fuel : Nat) : Call → CFG → Outcome CFG
  | .addPred this predBB pos, s => .ofOption (addPred this predBB pos s)
  | .addSucc this succBB pos, s => .ofOption (addSucc this succBB pos s)
  | .removePred this predBB updatePhi, s => .ofOption (removePred profileUse this predBB updatePhi s)
  | .removeSucc this succBB updatePhi, s => .ofOption (removeSucc profileUse this succBB updatePhi s)
  | .removeAllPred this, s => removeAllPred profileUse fuel this s
  | .removeAllSucc this, s => removeAllSucc profileUse fuel this s
  | .replacePred this old newPred, s => .ofOption (replacePred profileUse this old newPred s)
  | .replaceSucc this old newSucc updatePhi, s =>
    .ofOption (replaceSucc profileUse this old newSucc updatePhi s)
  | .moveAllPredToSucc this newSucc, s => moveAllPredToSucc profileUse fuel this newSucc s
  | .moveAllSuccToPred this newPred, s => moveAllSuccToPred profileUse fuel this newPred s

end CFG
end Maple
