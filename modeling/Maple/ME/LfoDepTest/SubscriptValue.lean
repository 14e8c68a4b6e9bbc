import Maple.ME.LfoDepTest.Subscript

/-!
# The value of a described subscript

The arithmetic of a subscript is done in the types of its operations. Where it loses no bits, the
description of `BuildOneSubscriptDesc` differs from the subscript only by what its constants lose as
`int64`.
-/

namespace Maple
namespace LfoDepTest

variable (format : Nat → IntFormat) (loop : Doloop) (A : Assignment) (i : Int)

/-- The value of an expression in the iteration in which the loop variable is `i`. The operations
compute in their types, and a constant that is an operand is a number of the type of the
operation. -/
def valueIn : Option Nat → MeExpr → Int
  | some t, .const (.int c _) => (format t).wrap c.toInt
  | _, .const c => A.constValue c
  | _, .leaf l => A.leaf l
  | _, .scalar s =>
    if loop.definedOutside s.defBB then A.entry s.var
    else if loop.isDoVarScalar s then i
    else A.inLoop s i
  | _, .ivar v base =>
    if !v.hasMultipleMu && loop.definedOutside v.muDefBB then
      A.entryMemory v.tyIdx v.fieldID (valueIn none base)
    else A.inLoopMemory v i (valueIn none base)
  | _, .unary (.cvt t f) opnd => (format t).wrap (valueIn (some f) opnd)
  | _, .unary (.other op) opnd => A.unary op (valueIn none opnd)
  | _, .binary (.add t) opnd0 opnd1 =>
    (format t).wrap (valueIn (some t) opnd0 + valueIn (some t) opnd1)
  | _, .binary (.sub t) opnd0 opnd1 =>
    (format t).wrap (valueIn (some t) opnd0 - valueIn (some t) opnd1)
  | _, .binary (.mul t) opnd0 opnd1 =>
    (format t).wrap (valueIn (some t) opnd0 * valueIn (some t) opnd1)
  | _, .binary (.other op) opnd0 opnd1 => A.binary op (valueIn none opnd0) (valueIn none opnd1)
  | _, .nary op => A.nary op
  | _, .arg init opnd => A.arg (valueIn none init) (valueIn none opnd)
  | _, .other id => A.other id i

/-- The additions, subtractions, multiplications and conversions have exact results. -/
def LosesNoBits : MeExpr → Prop
  | .unary (.cvt t f) opnd =>
    (format t).Mem (valueIn format loop A i (some f) opnd) ∧ LosesNoBits opnd
  | .binary (.add t) opnd0 opnd1 =>
    (format t).Mem (valueIn format loop A i (some t) opnd0 + valueIn format loop A i (some t) opnd1)
      ∧ LosesNoBits opnd0 ∧ LosesNoBits opnd1
  | .binary (.sub t) opnd0 opnd1 =>
    (format t).Mem (valueIn format loop A i (some t) opnd0 - valueIn format loop A i (some t) opnd1)
      ∧ LosesNoBits opnd0 ∧ LosesNoBits opnd1
  | .binary (.mul t) opnd0 opnd1 =>
    (format t).Mem (valueIn format loop A i (some t) opnd0 * valueIn format loop A i (some t) opnd1)
      ∧ LosesNoBits opnd0 ∧ LosesNoBits opnd1
  | _ => True

/-- The expression without the constant that is added or subtracted at its top. -/
def withoutConst : MeExpr → MeExpr
  | .binary (.add _) opnd0 (.const (.int _ _)) => opnd0
  | .binary (.sub _) opnd0 (.const (.int _ _)) => opnd0
  | e => e

/-- The other operand of a sum with a loop invariant. -/
def withoutInvar : MeExpr → MeExpr
  | .binary (.add _) opnd0 opnd1 => if loop.isLoopInvariant opnd0 then opnd1 else opnd0
  | e => e

/-- The type of a sum. -/
def sumType : MeExpr → Option Nat
  | .binary (.add t) _ _ => some t
  | _ => none

/-- The number that is added at the top, less the `int64` of the description. -/
def additiveError : MeExpr → Int
  | .binary (.add t) _ (.const (.int c _)) => (format t).wrap c.toInt - c.toInt
  | .binary (.sub t) _ (.const (.int c _)) => -(format t).wrap c.toInt - (-c).toInt
  | _ => 0

/-- The constant factor, less the `int64` of the description. -/
def factorError : MeExpr → Int
  | .binary (.mul t) _ (.const (.int c _)) => (format t).wrap c.toInt - c.toInt
  | _ => 0

/-- By how much the constants change the subscript if they are read as `int64`. -/
def constantError (e : MeExpr) : Int :=
  factorError format (withoutInvar loop (withoutConst e)) * i + additiveError format e

/-- The value of the invariant that is added, which is an operand in a sum of type `t`. -/
def invarValueIn (t : Option Nat) : Option MeExpr → Int
  | none => 0
  | some e => valueIn format loop A i t e

variable {format loop A i}

section

attribute [local simp] valueIn

lemma valueIn_operand {e : MeExpr} (h : ¬ loop.isLoopInvariant e) (t : Nat) :
    valueIn format loop A i (some t) e = valueIn format loop A i none e := by
  cases e with
  | const c => exact absurd rfl h
  | unary op _ => cases op <;> simp
  | binary op _ _ => cases op <;> simp
  | _ => simp

end

lemma splitAdditiveConst_valueIn {e : MeExpr} (hinv : ¬ loop.isLoopInvariant e) :
    (splitAdditiveConst (emitPreMeExpr e)).2 = emitPreMeExpr (withoutConst e) ∧
      ¬ loop.isLoopInvariant (withoutConst e) ∧
      ∀ A i, LosesNoBits format loop A i e →
        LosesNoBits format loop A i (withoutConst e) ∧
        valueIn format loop A i none e = valueIn format loop A i none (withoutConst e) +
          (splitAdditiveConst (emitPreMeExpr e)).1.toInt + additiveError format e := by
  have hsame (h₁ : splitAdditiveConst (emitPreMeExpr e) = (0, emitPreMeExpr e))
      (h₂ : withoutConst e = e) (h₃ : additiveError format e = 0) :
      (splitAdditiveConst (emitPreMeExpr e)).2 = emitPreMeExpr (withoutConst e) ∧
        ¬ loop.isLoopInvariant (withoutConst e) ∧
        ∀ A i, LosesNoBits format loop A i e →
          LosesNoBits format loop A i (withoutConst e) ∧
          valueIn format loop A i none e = valueIn format loop A i none (withoutConst e) +
            (splitAdditiveConst (emitPreMeExpr e)).1.toInt + additiveError format e := by
    rw [h₁, h₂, h₃]
    exact ⟨rfl, hinv, fun A i h => ⟨h, by simp⟩⟩
  cases e with
  | binary op opnd0 opnd1 =>
    cases opnd1 with
    | const c =>
      cases c with
      | other id => cases op <;> exact hsame rfl rfl rfl
      | int c bits =>
        have hinv₀ : ¬ loop.isLoopInvariant opnd0 := by simpa [Doloop.isLoopInvariant] using hinv
        cases op with
        | add t =>
          refine ⟨rfl, hinv₀, ?_⟩
          rintro A i ⟨hmem, h₀, -⟩
          refine ⟨h₀, ?_⟩
          rw [valueIn, (format t).wrap_of_mem hmem, valueIn_operand hinv₀, valueIn]
          simp only [withoutConst, emitPreMeExpr, splitAdditiveConst, additiveError]
          ring
        | sub t =>
          refine ⟨rfl, hinv₀, ?_⟩
          rintro A i ⟨hmem, h₀, -⟩
          refine ⟨h₀, ?_⟩
          rw [valueIn, (format t).wrap_of_mem hmem, valueIn_operand hinv₀, valueIn]
          simp only [withoutConst, emitPreMeExpr, splitAdditiveConst, additiveError]
          ring
        | mul t => exact hsame rfl rfl rfl
        | other id => exact hsame rfl rfl rfl
    | _ => cases op <;> exact hsame rfl rfl rfl
  | _ => exact hsame rfl rfl rfl

lemma splitAdditiveLoopInvar_valueIn {e : MeExpr} {invar : Option BaseNode} {n : BaseNode}
    (hinv : ¬ loop.isLoopInvariant e)
    (h : splitAdditiveLoopInvar loop (emitPreMeExpr e) = some (invar, n)) :
    n = emitPreMeExpr (withoutInvar loop e) ∧ ¬ loop.isLoopInvariant (withoutInvar loop e) ∧
      ∃ x, invar = x.map emitPreMeExpr ∧ (∀ y, x = some y → loop.isLoopInvariant y) ∧
        ∀ A i, LosesNoBits format loop A i e →
          LosesNoBits format loop A i (withoutInvar loop e) ∧
          valueIn format loop A i none e = valueIn format loop A i none (withoutInvar loop e) +
            invarValueIn format loop A i (sumType e) x := by
  have hsame (h' : splitAdditiveLoopInvar loop (emitPreMeExpr e) = some (none, emitPreMeExpr e))
      (h₂ : withoutInvar loop e = e) :
      n = emitPreMeExpr (withoutInvar loop e) ∧ ¬ loop.isLoopInvariant (withoutInvar loop e) ∧
        ∃ x, invar = x.map emitPreMeExpr ∧ (∀ y, x = some y → loop.isLoopInvariant y) ∧
          ∀ A i, LosesNoBits format loop A i e →
            LosesNoBits format loop A i (withoutInvar loop e) ∧
            valueIn format loop A i none e = valueIn format loop A i none (withoutInvar loop e) +
              invarValueIn format loop A i (sumType e) x := by
    rw [h'] at h
    cases h
    rw [h₂]
    exact ⟨rfl, hinv, none, rfl, by simp, fun A i h => ⟨h, by simp [invarValueIn]⟩⟩
  cases e with
  | binary op opnd0 opnd1 =>
    cases op with
    | add t =>
      simp only [emitPreMeExpr, splitAdditiveLoopInvar, isLoopInvariant2_emitPreMeExpr] at h
      by_cases h₀ : loop.isLoopInvariant opnd0
      · rw [if_pos h₀] at h
        cases h
        have hinv₁ : ¬ loop.isLoopInvariant opnd1 := by
          simpa [Doloop.isLoopInvariant, h₀] using hinv
        simp only [withoutInvar, if_pos h₀]
        refine ⟨trivial, hinv₁, some opnd0, rfl, by simpa using h₀, ?_⟩
        rintro A i ⟨hmem, -, hbits⟩
        refine ⟨hbits, ?_⟩
        rw [valueIn, (format t).wrap_of_mem hmem, valueIn_operand hinv₁, add_comm, sumType,
          invarValueIn]
      · rw [if_neg h₀] at h
        split_ifs at h with h₁
        cases h
        simp only [withoutInvar, if_neg h₀]
        refine ⟨trivial, h₀, some opnd1, rfl, by simpa using h₁, ?_⟩
        rintro A i ⟨hmem, hbits, -⟩
        refine ⟨hbits, ?_⟩
        rw [valueIn, (format t).wrap_of_mem hmem, valueIn_operand h₀, sumType, invarValueIn]
    | _ => exact hsame rfl rfl
  | _ => exact hsame rfl rfl

lemma splitCoeff_valueIn {e : MeExpr} {c : Int64} {n : BaseNode} (hinv : ¬ loop.isLoopInvariant e)
    (h : splitCoeff (emitPreMeExpr e) = some (c, n)) :
    ∃ e', n = emitPreMeExpr e' ∧ ¬ loop.isLoopInvariant e' ∧
      ∀ A i, LosesNoBits format loop A i e →
        LosesNoBits format loop A i e' ∧
        valueIn format loop A i none e =
          (c.toInt + factorError format e) * valueIn format loop A i none e' := by
  have hsame (h' : splitCoeff (emitPreMeExpr e) = some (1, emitPreMeExpr e))
      (h₂ : factorError format e = 0) :
      ∃ e', n = emitPreMeExpr e' ∧ ¬ loop.isLoopInvariant e' ∧
        ∀ A i, LosesNoBits format loop A i e →
          LosesNoBits format loop A i e' ∧
          valueIn format loop A i none e =
            (c.toInt + factorError format e) * valueIn format loop A i none e' := by
    rw [h'] at h
    cases h
    exact ⟨e, rfl, hinv, fun A i h => ⟨h, by simp [h₂]⟩⟩
  cases e with
  | binary op opnd0 opnd1 =>
    cases op with
    | mul t =>
      simp only [emitPreMeExpr, splitCoeff] at h
      split_ifs at h
      cases opnd1 with
      | const c =>
        cases c with
        | int c bits =>
          cases h
          have hinv₀ : ¬ loop.isLoopInvariant opnd0 := by simpa [Doloop.isLoopInvariant] using hinv
          refine ⟨opnd0, rfl, hinv₀, ?_⟩
          rintro A i ⟨hmem, hbits, -⟩
          refine ⟨hbits, ?_⟩
          rw [valueIn, (format t).wrap_of_mem hmem, valueIn_operand hinv₀, valueIn, factorError]
          ring
        | other id => cases h
      | _ => cases h
    | _ => exact hsame rfl rfl
  | _ => exact hsame rfl rfl

lemma stripCvt_valueIn {e : MeExpr} (hinv : ¬ loop.isLoopInvariant e) :
    ∃ e', stripCvt (emitPreMeExpr e) = emitPreMeExpr e' ∧ ¬ loop.isLoopInvariant e' ∧
      ∀ A i, LosesNoBits format loop A i e →
        valueIn format loop A i none e = valueIn format loop A i none e' := by
  cases e with
  | unary op opnd =>
    cases op with
    | cvt t f =>
      refine ⟨opnd, rfl, hinv, ?_⟩
      rintro A i ⟨hmem, -⟩
      rw [valueIn, (format t).wrap_of_mem hmem]
      exact valueIn_operand (e := opnd) hinv f
    | other o => exact ⟨_, rfl, hinv, fun A i _ => rfl⟩
  | _ => exact ⟨_, rfl, hinv, fun A i _ => rfl⟩

lemma valueIn_of_isDoVar {e : MeExpr} (h : isDoVar loop (emitPreMeExpr e))
    (hinv : ¬ loop.isLoopInvariant e) : valueIn format loop A i none e = i := by
  cases e with
  | scalar s =>
    rw [Doloop.isLoopInvariant] at hinv
    have hdo : loop.isDoVarScalar s := by
      unfold Doloop.isDoVarScalar
      simp only [emitPreMeExpr, isDoVar] at h
      split at h <;> simp_all
    simp only [valueIn, if_neg hinv, if_pos hdo]
  | _ => simp [emitPreMeExpr, isDoVar] at h

/-- Where no bits are lost, a description that is neither messy nor loop invariant gives the value
of the subscript if and only if the constants are the `int64`s of the description or their
differences cancel. -/
theorem buildOneSubscriptDesc_exact_iff (format : Nat → IntFormat) (loop : Doloop) {e : MeExpr}
    {d : SubscriptDesc} (hd : buildOneSubscriptDesc loop (emitPreMeExpr e) = d)
    (hmessy : d.tooMessy = false) (hinvar : d.loopInvariant = false) :
    ∃ x : Option MeExpr, d.additiveLoopInvar = x.map emitPreMeExpr ∧
      (∀ y, x = some y → loop.isLoopInvariant y) ∧
      ∀ A i, LosesNoBits format loop A i e →
        (valueIn format loop A i none e = d.coeff.toInt * i + d.additiveConst.toInt +
            invarValueIn format loop A i (sumType (withoutConst e)) x ↔
          constantError format loop i e = 0) := by
  unfold buildOneSubscriptDesc at hd
  simp only [isLoopInvariant2_emitPreMeExpr] at hd
  split at hd
  case isTrue => simp [← hd] at hinvar
  case isFalse hinv =>
    obtain ⟨he₁, hinv₁, hvalue₁⟩ := @splitAdditiveConst_valueIn format loop _ hinv
    rw [he₁] at hd
    split at hd
    case h_1 => simp [← hd] at hmessy
    case h_2 invar n hsplit =>
      obtain ⟨rfl, hinv₂, x, rfl, hx, hvalue₂⟩ :=
        @splitAdditiveLoopInvar_valueIn format loop _ _ _ hinv₁ hsplit
      split at hd
      case h_1 => simp [← hd] at hmessy
      case h_2 c n hcoeff =>
        obtain ⟨e₃, rfl, hinv₃, hvalue₃⟩ := @splitCoeff_valueIn format loop _ _ _ hinv₂ hcoeff
        obtain ⟨e₄, he₄, hinv₄, hvalue₄⟩ := @stripCvt_valueIn format loop _ hinv₃
        rw [he₄] at hd
        split at hd
        case isFalse => simp [← hd] at hmessy
        case isTrue hdo =>
          subst hd
          refine ⟨x, rfl, hx, ?_⟩
          intro A i hbits
          obtain ⟨hbits₁, hv₁⟩ := hvalue₁ A i hbits
          obtain ⟨hbits₂, hv₂⟩ := hvalue₂ A i hbits₁
          obtain ⟨hbits₃, hv₃⟩ := hvalue₃ A i hbits₂
          have hvalue : valueIn format loop A i none e =
              c.toInt * i + (splitAdditiveConst (emitPreMeExpr e)).1.toInt +
                invarValueIn format loop A i (sumType (withoutConst e)) x +
                constantError format loop i e := by
            rw [hv₁, hv₂, hv₃, hvalue₄ A i hbits₃, valueIn_of_isDoVar hdo hinv₄, constantError]
            ring
          rw [hvalue]
          exact add_eq_left

/-- A loop whose variable is the symbol 1, in a block that nothing dominates. -/
def subscriptLoop : Doloop where
  doVarStIdx := 1
  dominatedBy _ := false

/-- The read of the loop variable. -/
def subscriptVar : MeExpr := .scalar ⟨.symbol 1 0, 1, some 2⟩

/-- The subscript `4 * i + 8`. -/
def fourTimesVarPlusEight : MeExpr :=
  .binary (.add 0) (.binary (.mul 0) subscriptVar (.const (.int 4 64))) (.const (.int 8 64))

theorem buildOneSubscriptDesc_exact_iff_fourTimesVarPlusEight :
    ∃ x : Option MeExpr,
      (buildOneSubscriptDesc subscriptLoop (emitPreMeExpr fourTimesVarPlusEight)).additiveLoopInvar =
        x.map emitPreMeExpr ∧
      (∀ y, x = some y → subscriptLoop.isLoopInvariant y) ∧
      ∀ A i, LosesNoBits (fun _ => ⟨64, true⟩) subscriptLoop A i fourTimesVarPlusEight →
        (valueIn (fun _ => ⟨64, true⟩) subscriptLoop A i none fourTimesVarPlusEight =
            (buildOneSubscriptDesc subscriptLoop
              (emitPreMeExpr fourTimesVarPlusEight)).coeff.toInt * i +
            (buildOneSubscriptDesc subscriptLoop
              (emitPreMeExpr fourTimesVarPlusEight)).additiveConst.toInt +
            invarValueIn (fun _ => ⟨64, true⟩) subscriptLoop A i
              (sumType (withoutConst fourTimesVarPlusEight)) x ↔
          constantError (fun _ => ⟨64, true⟩) subscriptLoop i fourTimesVarPlusEight = 0) :=
  buildOneSubscriptDesc_exact_iff (fun _ => ⟨64, true⟩) subscriptLoop rfl rfl rfl

/-- Subtracting the smallest `int64` is described as adding it. -/
theorem buildOneSubscriptDesc_subtractsMin :
    ∃ (A : Assignment) (e : MeExpr) (d : SubscriptDesc),
      buildOneSubscriptDesc subscriptLoop (emitPreMeExpr e) = d ∧ d.tooMessy = false ∧
      d.loopInvariant = false ∧ d.additiveLoopInvar = none ∧
      LosesNoBits (fun _ => ⟨64, true⟩) subscriptLoop A (-1) e ∧
      valueIn (fun _ => ⟨64, true⟩) subscriptLoop A (-1) none e ≠
        d.coeff.toInt * (-1) + d.additiveConst.toInt := by
  refine ⟨default, .binary (.sub 0) subscriptVar (.const (.int Int64.minValue 64)), _, rfl, rfl, rfl,
    rfl, ?_, ?_⟩
  · exact ⟨by decide, trivial, trivial⟩
  · decide

end LfoDepTest
end Maple
