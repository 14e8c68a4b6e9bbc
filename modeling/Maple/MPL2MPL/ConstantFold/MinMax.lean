import Maple.Util.IntVal.MinMax

/-!
# Folding of `min` and `max`
-/

namespace Maple
namespace ConstantFold

open IntVal Words

/-- The opcodes `OP_min` and `OP_max`. -/
inductive MinMaxOp where
  | min | max
  deriving DecidableEq, Repr

/-- The function that folds the opcode. -/
def MinMaxOp.pick : MinMaxOp → IntVal → IntVal → Shape → Option IntVal
  | .min => minOf
  | .max => maxOf

/-- The move assignment of `IntVal`, which keeps the width and the sign and takes over the storage.
Where that is of the other kind or has less words, what is read from it is not defined. -/
def moveAssign (dst other : IntVal) : Option IntVal :=
  if dst.IsOneWord ↔ other.IsOneWord then
    if h : dst.words.length ≤ other.words.length then
      some (dst.withWords (other.words.take dst.words.length) (List.length_take_of_le h))
    else none
  else none

/-- `FoldIntConstBinaryMIRConst` of `OP_min` and `OP_max`: the constant is made from a number of 64
bits for every type. -/
def foldIntConstBinary (op : MinMaxOp) (resultType : Shape) (intVal0 intVal1 : IntVal) :
    Option IntVal := do
  let result ← moveAssign (ofNumber resultType 0) (← op.pick intVal0 intVal1 resultType)
  return ofNumber resultType (result.getExtValue 0).toUInt64

/-- `Min` and `Max` agree, and the constants are the smaller and the larger one of the two numbers
in the type. -/
structure MinMaxConsistent (a b : IntVal) (t : Shape) : Prop where
  agree : a.MinMaxAgree b t
  fold_min : ∃ r, foldIntConstBinary .min t a b = some r ∧ r.shape = t ∧
    r.toInt = min (t.format.wrap a.toInt) (t.format.wrap b.toInt)
  fold_max : ∃ r, foldIntConstBinary .max t a b = some r ∧ r.shape = t ∧
    r.toInt = max (t.format.wrap a.toInt) (t.format.wrap b.toInt)

/-! ### When they are consistent -/

lemma moveAssign_eq {dst other : IntVal} (hshape : other.shape = dst.shape) :
    moveAssign dst other = some other := by
  have hwidth : other.width = dst.width := congrArg Shape.width hshape
  have hlen := length_eq_of_width hwidth
  have hone : dst.IsOneWord ↔ other.IsOneWord := by
    rw [← isOneWord_shape, ← hshape, isOneWord_shape]
  rw [moveAssign, if_pos hone, dif_pos hlen.ge]
  have hwords : Words.value (other.words.take dst.words.length) = other.value := by
    rw [← hlen, List.take_length]
    rfl
  exact congrArg some (eq_of_value_eq (a := dst.withWords _ _) hshape.symm hwords)

lemma foldIntConstBinary_eq {op : MinMaxOp} {t : Shape} {a b r : IntVal}
    (hr : op.pick a b t = some r) (hshape : r.shape = t) :
    foldIntConstBinary op t a b = some (ofNumber t (r.getExtValue 0).toUInt64) := by
  have hmove : moveAssign (ofNumber t 0) r = some r := moveAssign_eq hshape
  rw [foldIntConstBinary, hr]
  simp [hmove]

section Consistent

variable {a b : IntVal} {t : Shape}

lemma minMaxConsistent_iff_of_agree (ha : a.Canonical) (hb : b.Canonical)
    (hacap : a.width ≤ a.storageBits) (hbcap : b.width ≤ b.storageBits) (ht : t.IsPrim)
    (h : a.MinMaxAgree b t) :
    MinMaxConsistent a b t ↔ t.IsOneWord ∨
      (⟨64, t.sign⟩ : IntFormat).Mem (t.format.wrap a.toInt) ∧
        (⟨64, t.sign⟩ : IntFormat).Mem (t.format.wrap b.toInt) := by
  have hagree := h
  obtain ⟨x, hx, hrx⟩ := truncOrExtend_represents ha hacap ht
  obtain ⟨y, hy, hry⟩ := truncOrExtend_represents hb hbcap ht
  obtain ⟨m, M, x', y', hm, hM, hx', hy', hms, hMs, hset, hle⟩ := h
  obtain rfl : x = x' := Option.some.inj (hx.symm.trans hx')
  obtain rfl : y = y' := Option.some.inj (hy.symm.trans hy')
  have hfm : foldIntConstBinary .min t a b = some (ofNumber t (m.getExtValue 0).toUInt64) :=
    foldIntConstBinary_eq hm hms
  have hfM : foldIntConstBinary .max t a b = some (ofNumber t (M.getExtValue 0).toUInt64) :=
    foldIntConstBinary_eq hM hMs
  have hiffx := toInt_ofNumber_getExtValue_iff ht hrx
  have hiffy := toInt_ofNumber_getExtValue_iff ht hry
  have hiff : MinMaxConsistent a b t ↔
      (ofNumber t (m.getExtValue 0).toUInt64).toInt = min x.toInt y.toInt ∧
        (ofNumber t (M.getExtValue 0).toUInt64).toInt = max x.toInt y.toInt := by
    rw [hrx.toInt_eq, hry.toInt_eq]
    constructor
    · rintro ⟨-, ⟨r, hr, -, hmin⟩, r', hr', -, hmax⟩
      obtain rfl := Option.some.inj (hfm.symm.trans hr)
      obtain rfl := Option.some.inj (hfM.symm.trans hr')
      exact ⟨hmin, hmax⟩
    · rintro ⟨hmin, hmax⟩
      exact ⟨hagree, ⟨_, hfm, rfl, hmin⟩, _, hfM, rfl, hmax⟩
  rw [hiff, ← hrx.toInt_eq, ← hry.toInt_eq]
  rcases hset with ⟨rfl, rfl⟩ | ⟨rfl, rfl⟩
  · rw [min_eq_left hle, max_eq_right hle, hiffx, hiffy, or_and_left]
  · rw [min_eq_right hle, max_eq_left hle, hiffx, hiffy, ← or_and_left, and_comm]

/-- `Min` and `Max` are consistent if an operand has the type and the other one is returned as it
is or is the smaller one, and if the numbers have up to 64 bits. -/
theorem minMaxConsistent_iff (ha : a.Canonical) (hb : b.Canonical)
    (hacap : a.width ≤ a.storageBits) (hbcap : b.width ≤ b.storageBits) (ht : t.IsPrim) :
    MinMaxConsistent a b t ↔ a.MinMaxCondition b t ∧ (t.IsOneWord ∨
      (⟨64, t.sign⟩ : IntFormat).Mem (t.format.wrap a.toInt) ∧
        (⟨64, t.sign⟩ : IntFormat).Mem (t.format.wrap b.toInt)) := by
  have hagree := minMaxAgree_iff ha hb hacap hbcap ht
  constructor
  · intro h
    exact ⟨hagree.mp h.agree,
      (minMaxConsistent_iff_of_agree ha hb hacap hbcap ht h.agree).mp h⟩
  · rintro ⟨hcond, hbits⟩
    exact (minMaxConsistent_iff_of_agree ha hb hacap hbcap ht (hagree.mpr hcond)).mpr hbits

end Consistent

theorem minMaxConsistent_iff_i32 :
    let i32 : Shape := ⟨32, true, by decide, by decide⟩
    let i8 : Shape := ⟨8, true, by decide, by decide⟩
    MinMaxConsistent (ofNumber i32 5) (ofNumber i8 7) i32 ↔
      (ofNumber i32 5).MinMaxCondition (ofNumber i8 7) i32 ∧ (i32.IsOneWord ∨
        (⟨64, true⟩ : IntFormat).Mem (i32.format.wrap (ofNumber i32 5).toInt) ∧
          (⟨64, true⟩ : IntFormat).Mem (i32.format.wrap (ofNumber i8 7).toInt)) := by
  intro i32 i8
  exact minMaxConsistent_iff (by unfold Canonical; decide) (by unfold Canonical; decide)
    (by decide) (by decide) (by decide)

/-- The minimum of 5 and of -1 of 8 bits is 255, above their maximum. -/
theorem not_minMaxConsistent_minus_one :
    let i32 : Shape := ⟨32, true, by decide, by decide⟩
    let i8 : Shape := ⟨8, true, by decide, by decide⟩
    ¬MinMaxConsistent (ofNumber i32 5) (ofNumber i8 255) i32 ∧
      (ofNumber i8 255).toInt = -1 ∧
      ((ofNumber i32 5).minOf (ofNumber i8 255) i32).map toInt = some 255 ∧
      ((ofNumber i32 5).maxOf (ofNumber i8 255) i32).map toInt = some 5 := by
  intro i32 i8
  refine ⟨?_, by decide, by decide, by decide⟩
  intro h
  have hcond := (minMaxAgree_iff (by unfold Canonical; decide) (by unfold Canonical; decide)
    (by decide) (by decide) (by decide)).mp h.agree
  rcases hcond with ⟨-, hb | ⟨hread, -⟩⟩ | ⟨hb, -⟩
  · exact absurd (congrArg Shape.width hb) (by decide)
  · revert hread
    unfold ReadsNumber
    decide
  · exact absurd (congrArg Shape.width hb) (by decide)

end ConstantFold
end Maple
