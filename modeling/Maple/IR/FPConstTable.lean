import Mathlib.Data.Nat.Bitwise
import Mathlib.Tactic.SplitIfs

/-!
# Quad-precision constants and their table

A constant of 128 bits is kept in two words, the one with the sign and the exponent first. The table
hands out one object for all patterns of a positive NaN.
-/

namespace Maple

/-- `MIRFloat128Const`, by its two words. -/
structure MIRFloat128Const where
  val0 : UInt64
  val1 : UInt64
  deriving DecidableEq, Repr

namespace MIRFloat128Const

def kDoubleSignPos : UInt64 := 63
def kDoubleExpShiftBits : UInt64 := 48
def kDoubleExpLeftBits : UInt64 := 16

def getSign (c : MIRFloat128Const) : UInt64 :=
  (c.val0 &&& (1 <<< kDoubleSignPos)) >>> kDoubleSignPos

def isZero (c : MIRFloat128Const) : Bool :=
  (c.val0 == 0 && c.val1 == 0) || (c.val0 == 1 <<< kDoubleSignPos && c.val1 == 0)

/-- `IsNan`, which does not hold of a NaN with the sign bit. -/
def isNan (c : MIRFloat128Const) : Bool :=
  c.val0 >>> kDoubleExpShiftBits == 0x7fff &&
    (c.val0 <<< kDoubleExpLeftBits != 0 || c.val1 != 0)

def isInf (c : MIRFloat128Const) : Bool :=
  (c.val0 == 0x7fff000000000000 && c.val1 == 0) || (c.val0 == 0xffff000000000000 && c.val1 == 0)

def getFloat128Value (c : MIRFloat128Const) : UInt64 × UInt64 := (c.val0, c.val1)

end MIRFloat128Const

/-- The part of `FPConstTable` for constants of 128 bits. -/
structure FPConstTable where
  float128ConstTable : List ((UInt64 × UInt64) × MIRFloat128Const)
  /-- An object stands under its own pattern. -/
  key_eq : ∀ e ∈ float128ConstTable, e.1 = e.2.getFloat128Value

namespace FPConstTable

/-! ### The objects of `PostInit` -/

def nanFloat128Const : MIRFloat128Const := ⟨0x7fff800000000000, 0⟩
def infFloat128Const : MIRFloat128Const := ⟨0x7fff000000000000, 0⟩
def minusInfFloat128Const : MIRFloat128Const := ⟨0xffff000000000000, 0⟩
def minusZeroFloat128Const : MIRFloat128Const := ⟨0x8000000000000000, 0⟩

/-- `DoGetOrCreateFloat128Const`; the variant for threads looks up and inserts in the same way. -/
def doGetOrCreateFloat128Const (t : FPConstTable) (v : MIRFloat128Const) :
    MIRFloat128Const × FPConstTable :=
  match t.float128ConstTable.find? fun e => e.1 = v.getFloat128Value with
  | some e => (e.2, t)
  | none => (v, {
      float128ConstTable := t.float128ConstTable ++ [(v.getFloat128Value, v)]
      key_eq := by
        intro e he
        rcases List.mem_append.mp he with he | he
        · exact t.key_eq e he
        · rw [List.mem_singleton.mp he] })

def getOrCreateFloat128Const (t : FPConstTable) (v : MIRFloat128Const) :
    MIRFloat128Const × FPConstTable :=
  if v.isNan then (nanFloat128Const, t)
  else if v.isInf then
    (if v.getSign ≠ 0 then minusInfFloat128Const else infFloat128Const, t)
  else if v.isZero ∧ v.getSign ≠ 0 then (minusZeroFloat128Const, t)
  else t.doGetOrCreateFloat128Const v

lemma doGetOrCreateFloat128Const_eq (t : FPConstTable) (v : MIRFloat128Const) :
    (t.doGetOrCreateFloat128Const v).1 = v := by
  unfold doGetOrCreateFloat128Const
  cases hfind : t.float128ConstTable.find? fun e => e.1 = v.getFloat128Value with
  | none => rfl
  | some e =>
    have hkey := t.key_eq e (List.mem_of_find?_eq_some hfind)
    have hfound : e.1 = v.getFloat128Value := by simpa using List.find?_some hfind
    obtain ⟨h0, h1⟩ := Prod.mk.inj (hkey.symm.trans hfound)
    exact congrArg₂ MIRFloat128Const.mk h0 h1

lemma getOrCreateFloat128Const_eq (t : FPConstTable) (v : MIRFloat128Const) :
    (t.getOrCreateFloat128Const v).1 = if v.isNan then nanFloat128Const else v := by
  unfold getOrCreateFloat128Const
  split_ifs with hnan hinf hsign hzero
  · rfl
  · obtain ⟨v0, v1⟩ := v
    simp only [MIRFloat128Const.isInf, Bool.or_eq_true, Bool.and_eq_true, beq_iff_eq] at hinf
    rcases hinf with ⟨rfl, rfl⟩ | ⟨rfl, rfl⟩
    · exact absurd rfl hsign
    · rfl
  · obtain ⟨v0, v1⟩ := v
    simp only [MIRFloat128Const.isInf, Bool.or_eq_true, Bool.and_eq_true, beq_iff_eq] at hinf
    rcases hinf with ⟨rfl, rfl⟩ | ⟨rfl, rfl⟩
    · rfl
    · exact absurd (by decide) hsign
  · obtain ⟨v0, v1⟩ := v
    obtain ⟨hzero, hsign⟩ := hzero
    simp only [MIRFloat128Const.isZero, Bool.or_eq_true, Bool.and_eq_true, beq_iff_eq] at hzero
    rcases hzero with ⟨rfl, rfl⟩ | ⟨rfl, rfl⟩
    · exact absurd rfl hsign
    · rfl
  · exact doGetOrCreateFloat128Const_eq t v

end FPConstTable
end Maple
