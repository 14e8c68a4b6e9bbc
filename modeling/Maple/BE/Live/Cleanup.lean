import Maple.BE.Live.Basic
import Mathlib.Data.Finset.Union
import Mathlib.Order.Interval.Finset.Nat

/-!
# Registers that the cleanup block uses

`InsertInOutOfCleanupBB` makes what is live at the start of the cleanup block live in the other
blocks. `DealWithInOutOfCleanupBB` does the same for one register after the other.
-/

namespace Maple
namespace Live

/-- The blocks in the order of the layout, with the cleanup block and the registers that the blocks
define. -/
structure CleanupFunc where
  bbs : List Nat
  nodup : bbs.Nodup
  isCleanup : Nat → Bool
  cleanupBB : Option Nat
  defs : Nat → Finset Nat

namespace CleanupFunc

variable (f : CleanupFunc)

/-- The block is not `GetFirstBB`. -/
def NotFirst (b : Nat) : Prop := f.bbs.head? ≠ some b

instance (b : Nat) : Decidable (f.NotFirst b) := inferInstanceAs (Decidable (_ ≠ _))

end CleanupFunc

/-- The registers that need to be ignored. -/
def isIgnored (r : Nat) : Bool := (1 ≤ r && r < 8) || (29 ≤ r && r ≤ 32)

/-- The loop of `InsertInOutOfCleanupBB`, with `cleanupBBLi`. -/
def insertLoop (f : CleanupFunc) : List Nat → Finset Nat → LiveState → LiveState
  | [], _, st => st
  | b :: bs, cleanupBBLi, st =>
    if f.isCleanup b then insertLoop f bs cleanupBBLi st
    else
      let cleanupBBLi := if f.NotFirst b then cleanupBBLi \ f.defs b else cleanupBBLi
      let liveIn := if f.NotFirst b then (st b).liveIn ∪ cleanupBBLi else (st b).liveIn
      insertLoop f bs cleanupBBLi
        (Function.update st b { st b with liveIn, liveOut := (st b).liveOut ∪ cleanupBBLi })

def insertInOutOfCleanupBB (f : CleanupFunc) (st : LiveState) : LiveState :=
  match f.cleanupBB with
  | none => st
  | some cleanupBB =>
    if (st cleanupBB).liveIn = ∅ then st
    else insertLoop f f.bbs ((st cleanupBB).liveIn.filter fun r => !isIgnored r) st

/-- The inner loop of `DealWithInOutOfCleanupBB` for the register `i`. -/
def setRegister (f : CleanupFunc) (i : Nat) (st : LiveState) (b : Nat) : LiveState :=
  if f.isCleanup b then st
  else
    let liveIn := if f.NotFirst b ∧ i ∉ f.defs b then insert i (st b).liveIn else (st b).liveIn
    Function.update st b { st b with liveIn, liveOut := insert i (st b).liveOut }

/-- `DealWithInOutOfCleanupBB`, with the registers below `maxRegNum`. -/
def dealWithInOutOfCleanupBB (f : CleanupFunc) (cleanupBBIgnoreReg : Nat → Bool) (maxRegNum : Nat)
    (st : LiveState) : LiveState :=
  match f.cleanupBB with
  | none => st
  | some cleanupBB =>
    (List.range maxRegNum).foldl (fun st i =>
      if i ∈ (st cleanupBB).liveIn ∧ !cleanupBBIgnoreReg i then f.bbs.foldl (setRegister f i) st
      else st) st

/-! ### What is live afterwards -/

/-- The registers that the cleanup block needs. -/
def needed (f : CleanupFunc) (st : LiveState) : Finset Nat :=
  match f.cleanupBB with
  | none => ∅
  | some cleanupBB => (st cleanupBB).liveIn.filter fun r => !isIgnored r

/-- The needed registers are live everywhere outside of the cleanup blocks: at the end of each block,
and at the start of each block other than the first that does not define them. -/
def LiveEverywhere (f : CleanupFunc) (st st' : LiveState) : Prop :=
  ∀ b ∈ f.bbs, f.isCleanup b = false → ∀ r ∈ needed f st,
    r ∈ (st' b).liveOut ∧ (f.NotFirst b → r ∉ f.defs b → r ∈ (st' b).liveIn)

/-- What becomes of one block if the registers are treated one by one. -/
def withNeeded (f : CleanupFunc) (st : LiveState) (b : Nat) : BBInfo :=
  { st b with
    liveIn := if f.NotFirst b then (st b).liveIn ∪ (needed f st \ f.defs b) else (st b).liveIn
    liveOut := (st b).liveOut ∪ needed f st }

/-- None of the blocks that count defines the register. -/
def Untouched (f : CleanupFunc) (bs : List Nat) (r : Nat) : Prop :=
  ∀ b ∈ bs, f.isCleanup b = false → f.NotFirst b → r ∉ f.defs b

/-- A needed register that is not live at the end of a block is defined neither there nor in a block
before it, and one that is not live at the start is not defined in a block before it. -/
def NotDefinedBefore (f : CleanupFunc) (st : LiveState) : Prop :=
  ∀ pre b post, f.bbs = pre ++ b :: post → f.isCleanup b = false → ∀ r ∈ needed f st,
    (r ∈ (st b).liveOut ∨ Untouched f (pre ++ [b]) r) ∧
      (f.NotFirst b → r ∉ f.defs b → r ∈ (st b).liveIn ∨ Untouched f pre r)

variable {f : CleanupFunc} {st : LiveState}

/-! ### The loop over the blocks -/

lemma insertLoop_of_notMem (bs : List Nat) (li : Finset Nat) (st : LiveState) {b : Nat}
    (hb : b ∉ bs) : insertLoop f bs li st b = st b := by
  induction bs generalizing li st with
  | nil => rfl
  | cons c bs ih =>
    rw [List.mem_cons, not_or] at hb
    simp only [insertLoop]
    split_ifs with hcleanup
    · exact ih li st hb.2
    all_goals rw [ih _ _ hb.2, Function.update_of_ne hb.1]

@[simp] lemma untouched_cons (b : Nat) (bs : List Nat) (r : Nat) :
    Untouched f (b :: bs) r ↔
      (f.isCleanup b = false → f.NotFirst b → r ∉ f.defs b) ∧ Untouched f bs r :=
  List.forall_mem_cons

@[simp] lemma untouched_nil (r : Nat) : Untouched f [] r := fun _ h => nomatch h

@[simp] lemma untouched_append (as bs : List Nat) (r : Nat) :
    Untouched f (as ++ bs) r ↔ Untouched f as r ∧ Untouched f bs r :=
  List.forall_mem_append

lemma mem_subtracted (c : Nat) (li : Finset Nat) (r : Nat) (hcleanup : f.isCleanup c = false) :
    r ∈ (if f.NotFirst c then li \ f.defs c else li) ↔
      r ∈ li ∧ (f.isCleanup c = false → f.NotFirst c → r ∉ f.defs c) := by
  split_ifs with hfirst <;> simp [hcleanup, hfirst]

lemma insertLoop_spec (pre post : List Nat) (b : Nat) (li : Finset Nat) (st : LiveState)
    (hpre : b ∉ pre) (hpost : b ∉ post) (hcleanup : f.isCleanup b = false) (r : Nat) :
    let info := insertLoop f (pre ++ b :: post) li st b
    (r ∈ info.liveOut ↔ r ∈ (st b).liveOut ∨ r ∈ li ∧ Untouched f (pre ++ [b]) r) ∧
      (r ∈ info.liveIn ↔
        r ∈ (st b).liveIn ∨ f.NotFirst b ∧ r ∈ li ∧ Untouched f (pre ++ [b]) r) := by
  induction pre generalizing li st with
  | nil =>
    intro info
    have hinfo : info = { st b with
        liveIn := if f.NotFirst b then
          (st b).liveIn ∪ (if f.NotFirst b then li \ f.defs b else li) else (st b).liveIn
        liveOut := (st b).liveOut ∪ (if f.NotFirst b then li \ f.defs b else li) } := by
      simp only [info, List.nil_append, insertLoop, hcleanup, Bool.false_eq_true, if_false]
      rw [insertLoop_of_notMem _ _ _ hpost, Function.update_self]
    rw [hinfo, List.nil_append, untouched_cons]
    constructor
    · simp [mem_subtracted b li r hcleanup]
    · by_cases hfirst : f.NotFirst b
      · simp [hfirst, hcleanup]
      · simp [hfirst]
  | cons c pre ih =>
    rw [List.mem_cons, not_or] at hpre
    cases hc : f.isCleanup c with
    | true => simpa [insertLoop, hc] using ih li st hpre.2
    | false =>
      have hspec := ih (if f.NotFirst c then li \ f.defs c else li) (Function.update st c
        { st c with
          liveIn := if f.NotFirst c then
            (st c).liveIn ∪ (if f.NotFirst c then li \ f.defs c else li) else (st c).liveIn
          liveOut := (st c).liveOut ∪ (if f.NotFirst c then li \ f.defs c else li) }) hpre.2
      simp only [mem_subtracted c li r hc, Function.update_of_ne hpre.1, and_assoc] at hspec
      simpa only [List.cons_append, insertLoop, hc, Bool.false_eq_true, if_false, untouched_cons]
        using hspec

/-! ### The result -/

variable (st) in
lemma insertInOutOfCleanupBB_spec {pre post : List Nat} {b : Nat} (hbbs : f.bbs = pre ++ b :: post)
    (hcleanup : f.isCleanup b = false) (r : Nat) :
    let info := insertInOutOfCleanupBB f st b
    (r ∈ info.liveOut ↔ r ∈ (st b).liveOut ∨ r ∈ needed f st ∧ Untouched f (pre ++ [b]) r) ∧
      (r ∈ info.liveIn ↔
        r ∈ (st b).liveIn ∨ f.NotFirst b ∧ r ∈ needed f st ∧ Untouched f (pre ++ [b]) r) := by
  have hnodup := f.nodup
  rw [hbbs, List.nodup_middle, List.nodup_cons, List.mem_append, not_or] at hnodup
  unfold insertInOutOfCleanupBB needed
  cases hbb : f.cleanupBB with
  | none => simp
  | some cleanupBB =>
    by_cases hempty : (st cleanupBB).liveIn = ∅
    · simp [hempty]
    · simp only [hempty, if_false, hbbs]
      exact insertLoop_spec pre post b _ st hnodup.1.1 hnodup.1.2 hcleanup r

/-- The registers that the cleanup block needs stay live everywhere if and only if those that are not
live anyway are not defined before. The result for a block then has nothing to do with the blocks
before it. -/
theorem insertInOutOfCleanupBB_liveEverywhere_iff (f : CleanupFunc) (st : LiveState) :
    (LiveEverywhere f st (insertInOutOfCleanupBB f st) ↔ NotDefinedBefore f st) ∧
      (LiveEverywhere f st (insertInOutOfCleanupBB f st) →
        ∀ b ∈ f.bbs, f.isCleanup b = false →
          (insertInOutOfCleanupBB f st b).liveIn = (withNeeded f st b).liveIn ∧
          (insertInOutOfCleanupBB f st b).liveOut = (withNeeded f st b).liveOut) := by
  refine ⟨⟨?_, ?_⟩, ?_⟩
  · intro h pre b post hbbs hcleanup r hr
    obtain ⟨hout, hin⟩ := insertInOutOfCleanupBB_spec st hbbs hcleanup r
    obtain ⟨hlive, hstart⟩ := h b (by simp [hbbs]) hcleanup r hr
    constructor
    · exact (hout.mp hlive).imp_right And.right
    · intro hfirst hdefs
      apply (hin.mp (hstart hfirst hdefs)).imp_right
      rintro ⟨-, -, huntouched⟩
      exact ((untouched_append _ _ _).mp huntouched).1
  · intro h b hb hcleanup r hr
    obtain ⟨pre, post, hbbs⟩ := List.append_of_mem hb
    obtain ⟨hout, hin⟩ := insertInOutOfCleanupBB_spec st hbbs hcleanup r
    obtain ⟨hlive, hstart⟩ := h pre b post hbbs hcleanup r hr
    constructor
    · exact hout.mpr (hlive.imp_right fun huntouched => ⟨hr, huntouched⟩)
    · intro hfirst hdefs
      apply hin.mpr
      apply (hstart hfirst hdefs).imp_right
      intro huntouched
      exact ⟨hfirst, hr, by simp [huntouched, hdefs]⟩
  · intro h b hb hcleanup
    obtain ⟨pre, post, hbbs⟩ := List.append_of_mem hb
    constructor
    · ext r
      obtain ⟨-, hin⟩ := insertInOutOfCleanupBB_spec st hbbs hcleanup r
      by_cases hfirst : f.NotFirst b
      · simp only [withNeeded, hfirst, if_true, Finset.mem_union, Finset.mem_sdiff]
        constructor
        · intro hr
          apply (hin.mp hr).imp_right
          rintro ⟨-, hneeded, huntouched⟩
          exact ⟨hneeded, huntouched b (by simp) hcleanup hfirst⟩
        · rintro (hr | ⟨hneeded, hdefs⟩)
          · exact hin.mpr (Or.inl hr)
          · exact (h b hb hcleanup r hneeded).2 hfirst hdefs
      · simp [hin, withNeeded, hfirst]
    · ext r
      obtain ⟨hout, -⟩ := insertInOutOfCleanupBB_spec st hbbs hcleanup r
      simp only [withNeeded, Finset.mem_union]
      constructor
      · intro hr
        exact (hout.mp hr).imp_right And.left
      · rintro (hr | hneeded)
        · exact hout.mpr (Or.inl hr)
        · exact (h b hb hcleanup r hneeded).1

/-- Three blocks of which the second defines the register 40, and a cleanup block that needs it. -/
def definedInBetween : CleanupFunc where
  bbs := [0, 1, 2, 3]
  nodup := by decide
  isCleanup b := b = 3
  cleanupBB := some 3
  defs b := if b = 1 then {40} else ∅

/-- The register is not live in the third block. -/
theorem insertInOutOfCleanupBB_definedInBetween :
    let st : LiveState := fun b => if b = 3 then { liveIn := {40} } else {}
    40 ∈ needed definedInBetween st ∧
      (insertInOutOfCleanupBB definedInBetween st 2).liveIn = ∅ ∧
      (insertInOutOfCleanupBB definedInBetween st 2).liveOut = ∅ ∧
      ¬ LiveEverywhere definedInBetween st (insertInOutOfCleanupBB definedInBetween st) := by
  intro st
  have hneeded : 40 ∈ needed definedInBetween st := by decide
  have hout : (insertInOutOfCleanupBB definedInBetween st 2).liveOut = ∅ := by decide
  refine ⟨hneeded, by decide, hout, ?_⟩
  intro h
  have hlive := (h 2 (by decide) (by decide) 40 hneeded).1
  rw [hout] at hlive
  exact absurd hlive (Finset.notMem_empty 40)

/-! ### One register after the other -/

lemma foldl_setRegister (bs : List Nat) (hnodup : bs.Nodup) (i b : Nat) (st : LiveState) :
    bs.foldl (setRegister f i) st b =
      if b ∈ bs ∧ f.isCleanup b = false then
        { st b with
          liveIn := if f.NotFirst b ∧ i ∉ f.defs b then insert i (st b).liveIn else (st b).liveIn
          liveOut := insert i (st b).liveOut }
      else st b := by
  induction bs generalizing st with
  | nil => simp
  | cons c bs ih =>
    rw [List.nodup_cons] at hnodup
    rw [List.foldl_cons, ih hnodup.2]
    by_cases hc : f.isCleanup c
    · have hstep : setRegister f i st c = st := by simp [setRegister, hc]
      rw [hstep]
      by_cases hbc : b = c
      · simp [hbc, hc]
      · simp [hbc]
    · by_cases hbc : b = c
      · subst hbc
        simp [setRegister, hc, hnodup.1]
      · simp [setRegister, hc, hbc]

variable (st) in
lemma foldl_range_setRegister (ignoreReg : Nat → Bool) {cleanupBB : Nat}
    (hcleanup : f.isCleanup cleanupBB = true) {b : Nat} (hb : b ∈ f.bbs)
    (hnot : f.isCleanup b = false) (n : Nat) :
    let kept := (st cleanupBB).liveIn.filter fun r => r < n ∧ !ignoreReg r
    let st' := (List.range n).foldl (fun st i =>
      if i ∈ (st cleanupBB).liveIn ∧ !ignoreReg i then f.bbs.foldl (setRegister f i) st else st) st
    st' cleanupBB = st cleanupBB ∧
      st' b = { st b with
        liveIn := if f.NotFirst b then (st b).liveIn ∪ (kept \ f.defs b) else (st b).liveIn
        liveOut := (st b).liveOut ∪ kept } := by
  induction n with
  | zero => simp
  | succ n ih =>
    obtain ⟨hstay, hblock⟩ := ih
    simp only [List.range_succ, List.foldl_append, List.foldl_cons, List.foldl_nil, hstay]
    by_cases hn : n ∈ (st cleanupBB).liveIn ∧ (!ignoreReg n) = true
    · rw [if_pos hn, foldl_setRegister _ f.nodup, foldl_setRegister _ f.nodup]
      rw [if_neg (by simp [hcleanup]), if_pos ⟨hb, hnot⟩, hstay, hblock]
      have hfilter : ((st cleanupBB).liveIn.filter fun r => r < n + 1 ∧ !ignoreReg r) =
          insert n ((st cleanupBB).liveIn.filter fun r => r < n ∧ !ignoreReg r) := by
        ext r
        simp only [Finset.mem_filter, Finset.mem_insert, Nat.lt_succ_iff_lt_or_eq]
        constructor
        · rintro ⟨hr, hlt | rfl, hkept⟩
          · exact Or.inr ⟨hr, hlt, hkept⟩
          · exact Or.inl rfl
        · rintro (rfl | ⟨hr, hlt, hkept⟩)
          · exact ⟨hn.1, Or.inr rfl, hn.2⟩
          · exact ⟨hr, Or.inl hlt, hkept⟩
      refine ⟨rfl, ?_⟩
      rw [hfilter]
      by_cases hfirst : f.NotFirst b
      · by_cases hdefs : n ∈ f.defs b
        · simp [hfirst, hdefs, Finset.insert_sdiff_of_mem]
        · simp [hfirst, hdefs, Finset.insert_sdiff_of_notMem]
      · simp [hfirst]
    · rw [if_neg hn, hblock]
      have hfilter : ((st cleanupBB).liveIn.filter fun r => r < n + 1 ∧ !ignoreReg r) =
          (st cleanupBB).liveIn.filter fun r => r < n ∧ !ignoreReg r := by
        apply Finset.filter_congr
        intro r hr
        have hne : (!ignoreReg r) = true → r ≠ n := fun h heq => hn (heq ▸ ⟨hr, h⟩)
        constructor
        · rintro ⟨hlt, hkept⟩
          exact ⟨by have := hne hkept; omega, hkept⟩
        · exact And.imp_left Nat.lt_succ_of_lt
      exact ⟨hstay, by rw [hfilter]⟩

/-- Register by register, the cleanup block gets what it needs, whatever the other blocks define. With
the registers of `isIgnored` this is `withNeeded`. -/
theorem dealWithInOutOfCleanupBB_eq (f : CleanupFunc) (cleanupBBIgnoreReg : Nat → Bool)
    (maxRegNum : Nat) (st : LiveState) {cleanupBB : Nat} (hbb : f.cleanupBB = some cleanupBB)
    (hcleanup : f.isCleanup cleanupBB = true) (hmax : ∀ r ∈ (st cleanupBB).liveIn, r < maxRegNum)
    {b : Nat} (hb : b ∈ f.bbs) (hnot : f.isCleanup b = false) :
    let kept := (st cleanupBB).liveIn.filter fun r => !cleanupBBIgnoreReg r
    dealWithInOutOfCleanupBB f cleanupBBIgnoreReg maxRegNum st b = { st b with
      liveIn := if f.NotFirst b then (st b).liveIn ∪ (kept \ f.defs b) else (st b).liveIn
      liveOut := (st b).liveOut ∪ kept } := by
  have hfilter : ((st cleanupBB).liveIn.filter fun r => r < maxRegNum ∧ !cleanupBBIgnoreReg r) =
      (st cleanupBB).liveIn.filter fun r => !cleanupBBIgnoreReg r :=
    Finset.filter_congr fun r hr => and_iff_right (hmax r hr)
  have hrange := (foldl_range_setRegister st cleanupBBIgnoreReg hcleanup hb hnot maxRegNum).2
  rw [hfilter] at hrange
  rw [dealWithInOutOfCleanupBB, hbb]
  exact hrange

theorem dealWithInOutOfCleanupBB_definedInBetween :
    let st : LiveState := fun b => if b = 3 then { liveIn := {40} } else {}
    dealWithInOutOfCleanupBB definedInBetween isIgnored 41 st 2 =
      withNeeded definedInBetween st 2 :=
  dealWithInOutOfCleanupBB_eq definedInBetween isIgnored 41 _ rfl (by decide) (by decide)
    (by decide) (by decide)

end Live
end Maple
