import Maple.IR.FloatConst
import Maple.Util.IntVal.Convert
import Maple.Util.IntVal.Exact

/-!
# Equality of constants

`operator==` of the subclasses of `MIRConst` (`mir_const.cpp`). Every kind compares its own fields,
and an aggregate compares its elements one by one. Two references to one object are two equal
constants here; the comparison of the fields holds for them.
-/

namespace Maple

/-- What constants refer to: the types, compared by their addresses, the interned strings, and the
offsets of the fields of symbols. -/
structure ConstTables where
  MIRType : Type
  decEq : DecidableEq MIRType
  shape : MIRType → IntVal.Shape
  isUnion : MIRType → Bool
  uStrTable : Nat → List UInt8
  u16StrTable : Nat → List UInt16
  fieldOffset : Nat → Nat → Int

namespace ConstTables

variable (T : ConstTables)

instance : DecidableEq T.MIRType := T.decEq

/-- The constants that are no aggregates. -/
inductive Leaf
  | int (type : T.MIRType) (value : IntVal) (shape_eq : value.shape = T.shape type)
  | addrof (type : T.MIRType) (stIdx fldID : Nat) (offset : Int)
  | addroffunc (type : T.MIRType) (puIdx : Nat)
  | lbl (type : T.MIRType) (value puIdx : Nat)
  | str (type : T.MIRType) (value : Nat)
  | str16 (type : T.MIRType) (value : Nat)
  | float (type : T.MIRType) (value : MIRFloatConst)
  | double (type : T.MIRType) (value : MIRDoubleConst)
  | float128 (type : T.MIRType) (val : MIRFloat128Const)

mutual

inductive MIRConst
  | leaf (c : Leaf T)
  | agg (type : T.MIRType) (elements : Elements)

/-- `constVec` and `fieldIdVec` of an aggregate. -/
inductive Elements
  | nil
  | cons (fieldId : Nat) (c : MIRConst) (rest : Elements)

end

end ConstTables

/-! ### The comparison -/

/-- `operator==` of `MIRFloatConst` and of `MIRDoubleConst`. -/
def floatingEq {C β : Type} [DecidableEq β] (isnan isZeroValue isNeg : C → Bool) (intValue : C → β)
    (c floatConst : C) : Bool :=
  if isnan floatConst then isnan c
  else if isnan c then isnan floatConst
  else if isZeroValue floatConst && isZeroValue c then isNeg floatConst == isNeg c
  else intValue floatConst == intValue c

def MIRFloatConst.isNeg (c : MIRFloatConst) : Bool := c.intValue &&& 0x80000000 == 0x80000000

/-- The value is a zero of either sign. -/
def MIRFloatConst.isZeroValue (c : MIRFloatConst) : Bool := c.intValue &&& 0x7fffffff == 0

def MIRFloatConst.eq : MIRFloatConst → MIRFloatConst → Bool :=
  floatingEq isnan isZeroValue isNeg intValue

def MIRDoubleConst.isNeg (c : MIRDoubleConst) : Bool :=
  c.intValue &&& 0x8000000000000000 == 0x8000000000000000

/-- The value is a zero of either sign. -/
def MIRDoubleConst.isZeroValue (c : MIRDoubleConst) : Bool :=
  c.intValue &&& 0x7fffffffffffffff == 0

def MIRDoubleConst.eq : MIRDoubleConst → MIRDoubleConst → Bool :=
  floatingEq isnan isZeroValue isNeg intValue

namespace ConstTables

variable {T : ConstTables}

/-- `operator==` of the kinds without elements. Constants of different kinds are not equal. -/
def Leaf.eq : Leaf T → Leaf T → Bool
  | .int type value _, .int type' value' _ => type' == type && value'.eq value
  | .addrof type stIdx fldID _, .addrof type' stIdx' fldID' _ =>
    if type ≠ type' then false else stIdx == stIdx' && fldID == fldID'
  | .addroffunc type puIdx, .addroffunc type' puIdx' => type == type' && puIdx == puIdx'
  | .lbl _ value _, .lbl _ value' _ => value' == value
  | .str type value, .str type' value' => type' == type && value == value'
  | .str16 type value, .str16 type' value' => type == type' && value == value'
  | .float _ value, .float _ value' => value.eq value'
  | .double _ value, .double _ value' => value.eq value'
  | .float128 _ val, .float128 _ val' => val.val0 == val'.val0 && val.val1 == val'.val1
  | _, _ => false

mutual

/-- `operator==`, with the operands exchanged when `flipped` is set: an aggregate compares the
elements of the other one with its own. -/
def compare (flipped : Bool) : MIRConst T → MIRConst T → Bool
  | .leaf c, .leaf rhs => if flipped then rhs.eq c else c.eq rhs
  | .agg _ constVec, .agg _ constVec' => compareElements (!flipped) constVec constVec'
  | _, _ => false

/-- The sizes are equal, and so are the elements. -/
def compareElements (flipped : Bool) : Elements T → Elements T → Bool
  | .nil, .nil => true
  | .cons _ c rest, .cons _ c' rest' => compare flipped c c' && compareElements flipped rest rest'
  | _, _ => false

end

def MIRConst.eq (c rhs : MIRConst T) : Bool := compare false c rhs

/-! ### What a constant denotes -/

/-- The value that a constant gives an object. -/
inductive Value
  | bits (width value : Nat)
  | symbol (stIdx : Nat) (offset : Int)
  | function (puIdx : Nat)
  | label (puIdx value : Nat)
  | string (s : List UInt8)
  | string16 (s : List UInt16)
  | aggregate (fields : Nat → List Value)

def Leaf.denote : Leaf T → Value
  | .int _ value _ => .bits value.width value.value
  | .addrof _ stIdx fldID offset => .symbol stIdx (T.fieldOffset stIdx fldID + offset)
  | .addroffunc _ puIdx => .function puIdx
  | .lbl _ value puIdx => .label puIdx value
  | .str _ value => .string (T.uStrTable value)
  | .str16 _ value => .string16 (T.u16StrTable value)
  | .float _ value => .bits 32 value.intValue.toNat
  | .double _ value => .bits 64 value.intValue.toNat
  | .float128 _ val => .bits 128 (val.val0.toNat * 2 ^ 64 + val.val1.toNat)

/-- The values that a list of elements gives a field. All elements of an array have the field id 0,
and a union has its first element under every field id. -/
def fieldValues (isUnion : Bool) (elements : List (Nat × Value)) (fieldId : Nat) : List Value :=
  if isUnion then elements.head?.toList.map Prod.snd
  else (elements.filter fun e => e.1 == fieldId).map Prod.snd

mutual

def MIRConst.denote : MIRConst T → Value
  | .leaf c => c.denote
  | .agg type elements => .aggregate (fieldValues (T.isUnion type) elements.denote)

/-- The elements with their field ids. -/
def Elements.denote : Elements T → List (Nat × Value)
  | .nil => []
  | .cons fieldId c rest => (fieldId, c.denote) :: rest.denote

end

def Elements.getAggConstElement (isUnion : Bool) (fieldId : Nat) : Elements T → Option (MIRConst T)
  | .nil => none
  | .cons id c rest =>
    if isUnion then some c
    else if fieldId == id then some c
    else rest.getAggConstElement isUnion fieldId

lemma head?_fieldValues (isUnion : Bool) (fieldId : Nat) (xs : Elements T) :
    (fieldValues isUnion xs.denote fieldId).head? =
      (xs.getAggConstElement isUnion fieldId).map MIRConst.denote := by
  match xs with
  | .nil => cases isUnion <;> rfl
  | .cons id c rest =>
    have ih := head?_fieldValues isUnion fieldId rest
    cases isUnion with
    | true => rfl
    | false =>
      simp only [fieldValues, Elements.denote, Elements.getAggConstElement, Bool.false_eq_true,
        ↓reduceIte, List.filter_cons, beq_iff_eq] at ih ⊢
      by_cases hid : id = fieldId
      · simp [hid]
      · rw [if_neg hid, if_neg (Ne.symm hid)]
        exact ih

/-! ### When equal constants denote the same value -/

/-- The fields that are not compared agree: the offset of an address, the function of a label, and
the bits of a NaN. -/
def Leaf.Condition : Leaf T → Leaf T → Prop
  | .addrof _ _ _ offset, .addrof _ _ _ offset' => offset = offset'
  | .lbl _ _ puIdx, .lbl _ _ puIdx' => puIdx = puIdx'
  | .float _ value, .float _ value' => value.isnan = true → value.intValue = value'.intValue
  | .double _ value, .double _ value' => value.isnan = true → value.intValue = value'.intValue
  | _, _ => True

/-- `fieldIdVec`. -/
def Elements.fieldIds : Elements T → List Nat
  | .nil => []
  | .cons fieldId _ rest => fieldId :: rest.fieldIds

mutual

/-- So do the elements of aggregates, and their field ids do or they give the same values to each
field all the same. Of unions only the first elements count, and an aggregate that is no union is
not one unless both are empty. -/
def MIRConst.Condition : MIRConst T → MIRConst T → Prop
  | .leaf c, .leaf c' => c.Condition c'
  | .agg type xs, .agg type' ys =>
    if T.isUnion type = true ∧ T.isUnion type' = true then xs.HeadCondition ys
    else if T.isUnion type = true ∨ T.isUnion type' = true then xs.fieldIds = []
    else if xs.fieldIds = ys.fieldIds then xs.Condition ys
    else ∀ fieldId, fieldValues false xs.denote fieldId = fieldValues false ys.denote fieldId
  | _, _ => True

/-- The condition for the first elements. -/
def Elements.HeadCondition : Elements T → Elements T → Prop
  | .cons _ c _, .cons _ c' _ => c.Condition c'
  | _, _ => True

/-- The condition for all elements. -/
def Elements.Condition : Elements T → Elements T → Prop
  | .cons _ c rest, .cons _ c' rest' => c.Condition c' ∧ rest.Condition rest'
  | _, _ => True

end

/-! ### Floating point numbers -/

lemma eq_of_sign_eq {n x y : Nat} (hx : x < 2 ^ (n + 1)) (hy : y < 2 ^ (n + 1))
    (hx0 : x &&& (2 ^ n - 1) = 0) (hy0 : y &&& (2 ^ n - 1) = 0)
    (h : x &&& 2 ^ n = 2 ^ n ↔ y &&& 2 ^ n = 2 ^ n) : x = y := by
  have hpos : 0 < 2 ^ n := Nat.two_pow_pos n
  rw [Nat.and_two_pow_sub_one_eq_mod] at hx0 hy0
  have hsign (z : Nat) : z &&& 2 ^ n = 2 ^ n ↔ z.testBit n = true := by
    rw [Nat.and_two_pow]
    cases z.testBit n
    · simp [hpos.ne]
    · simp
  have hquot (z : Nat) (hz : z < 2 ^ (n + 1)) : z / 2 ^ n = (z.testBit n).toNat := by
    have hlt : z / 2 ^ n < 2 := by
      rw [Nat.div_lt_iff_lt_mul hpos, ← pow_succ']
      exact hz
    rw [Nat.toNat_testBit, Nat.mod_eq_of_lt hlt]
  have heq : x.testBit n = y.testBit n := by
    rw [Bool.eq_iff_iff, ← hsign, ← hsign, h]
  rw [← Nat.div_add_mod x (2 ^ n), ← Nat.div_add_mod y (2 ^ n), hx0, hy0, hquot x hx, hquot y hy,
    heq]

/-- The bits, where all NaNs are one. -/
def floatingKey {C β : Type} (isnan : C → Bool) (intValue : C → β) (c : C) : Option β :=
  if isnan c then none else some (intValue c)

lemma floatingEq_iff {C β : Type} [DecidableEq β] {isnan isZeroValue isNeg : C → Bool}
    {intValue : C → β} (hsign : ∀ c d, intValue c = intValue d → isNeg c = isNeg d)
    (hzero : ∀ c d, isZeroValue c = true → isZeroValue d = true → isNeg c = isNeg d →
      intValue c = intValue d) {c d : C} :
    floatingEq isnan isZeroValue isNeg intValue c d = true ↔
      floatingKey isnan intValue c = floatingKey isnan intValue d := by
  rw [floatingEq, floatingKey, floatingKey]
  by_cases hd : isnan d = true
  · cases hc : isnan c <;> simp [hd]
  by_cases hc : isnan c = true
  · simp [hd, hc]
  rw [if_neg hd, if_neg hc, if_neg hd, if_neg hc, Option.some_inj]
  split_ifs with hzeros
  · rw [Bool.and_eq_true] at hzeros
    rw [beq_iff_eq]
    constructor
    · exact fun h => hzero c d hzeros.2 hzeros.1 h.symm
    · exact fun h => (hsign c d h).symm
  · rw [beq_iff_eq]
    exact eq_comm

lemma float_eq_iff {c d : MIRFloatConst} :
    c.eq d = true ↔ floatingKey MIRFloatConst.isnan MIRFloatConst.intValue c =
      floatingKey MIRFloatConst.isnan MIRFloatConst.intValue d := by
  apply floatingEq_iff
  · intro c d h
    rw [MIRFloatConst.isNeg, MIRFloatConst.isNeg, h]
  · intro c d hc hd h
    rw [MIRFloatConst.isZeroValue, beq_iff_eq, ← UInt32.toNat_inj, UInt32.toNat_and] at hc hd
    rw [MIRFloatConst.isNeg, MIRFloatConst.isNeg, Bool.eq_iff_iff, beq_iff_eq, beq_iff_eq,
      ← UInt32.toNat_inj, ← UInt32.toNat_inj, UInt32.toNat_and, UInt32.toNat_and] at h
    rw [← UInt32.toNat_inj]
    exact eq_of_sign_eq (n := 31) c.intValue.toNat_lt d.intValue.toNat_lt hc hd h

lemma double_eq_iff {c d : MIRDoubleConst} :
    c.eq d = true ↔ floatingKey MIRDoubleConst.isnan MIRDoubleConst.intValue c =
      floatingKey MIRDoubleConst.isnan MIRDoubleConst.intValue d := by
  apply floatingEq_iff
  · intro c d h
    rw [MIRDoubleConst.isNeg, MIRDoubleConst.isNeg, h]
  · intro c d hc hd h
    rw [MIRDoubleConst.isZeroValue, beq_iff_eq, ← UInt64.toNat_inj, UInt64.toNat_and] at hc hd
    rw [MIRDoubleConst.isNeg, MIRDoubleConst.isNeg, Bool.eq_iff_iff, beq_iff_eq, beq_iff_eq,
      ← UInt64.toNat_inj, ← UInt64.toNat_inj, UInt64.toNat_and, UInt64.toNat_and] at h
    rw [← UInt64.toNat_inj]
    exact eq_of_sign_eq (n := 63) c.intValue.toNat_lt d.intValue.toNat_lt hc hd h

/-! ### The fields that are compared -/

/-- The fields of a constant that `operator==` looks at. -/
inductive Key (T : ConstTables)
  | int (type : T.MIRType) (value : Nat)
  | addrof (type : T.MIRType) (stIdx fldID : Nat)
  | addroffunc (type : T.MIRType) (puIdx : Nat)
  | lbl (value : Nat)
  | str (type : T.MIRType) (value : Nat)
  | str16 (type : T.MIRType) (value : Nat)
  | float (bits : Option UInt32)
  | double (bits : Option UInt64)
  | float128 (val : MIRFloat128Const)
  | agg (elements : List (Key T))

def Leaf.key : Leaf T → Key T
  | .int type value _ => .int type value.value
  | .addrof type stIdx fldID _ => .addrof type stIdx fldID
  | .addroffunc type puIdx => .addroffunc type puIdx
  | .lbl _ value _ => .lbl value
  | .str type value => .str type value
  | .str16 type value => .str16 type value
  | .float _ value => .float (floatingKey MIRFloatConst.isnan MIRFloatConst.intValue value)
  | .double _ value => .double (floatingKey MIRDoubleConst.isnan MIRDoubleConst.intValue value)
  | .float128 _ val => .float128 val

mutual

def MIRConst.key : MIRConst T → Key T
  | .leaf c => c.key
  | .agg _ elements => .agg elements.keys

def Elements.keys : Elements T → List (Key T)
  | .nil => []
  | .cons _ c rest => c.key :: rest.keys

end

lemma Leaf.eq_int_iff {type type' : T.MIRType} {value value' : IntVal}
    {h : value.shape = T.shape type} {h' : value'.shape = T.shape type'} :
    Leaf.eq (.int type value h) (.int type' value' h') = true ↔
      type = type' ∧ value.value = value'.value := by
  rw [Leaf.eq, Bool.and_eq_true, beq_iff_eq]
  constructor
  · rintro ⟨rfl, heq⟩
    have hwidth : value'.width = value.width := congrArg IntVal.Shape.width (h'.trans h.symm)
    exact ⟨rfl, ((IntVal.eq_iff_value_eq hwidth).mp heq).symm⟩
  · rintro ⟨rfl, heq⟩
    have hwidth : value'.width = value.width := congrArg IntVal.Shape.width (h'.trans h.symm)
    exact ⟨rfl, (IntVal.eq_iff_value_eq hwidth).mpr heq.symm⟩

lemma Leaf.eq_iff {c d : Leaf T} : c.eq d = true ↔ c.key = d.key := by
  cases c <;> cases d
  case int.int => rw [eq_int_iff, key, key, Key.int.injEq]
  case float.float => rw [Leaf.eq, float_eq_iff, key, key, Key.float.injEq]
  case double.double => rw [Leaf.eq, double_eq_iff, key, key, Key.double.injEq]
  case float128.float128 _ val _ val' =>
    cases val
    cases val'
    simp [Leaf.eq, key]
  all_goals grind [Leaf.eq, key]

mutual

lemma compare_iff (flipped : Bool) (c d : MIRConst T) :
    compare flipped c d = true ↔ c.key = d.key := by
  match c, d with
  | .leaf c, .leaf d =>
    rw [compare, MIRConst.key, MIRConst.key]
    cases flipped with
    | true => exact Leaf.eq_iff.trans eq_comm
    | false => exact Leaf.eq_iff
  | .agg _ xs, .agg _ ys =>
    rw [compare, MIRConst.key, MIRConst.key, Key.agg.injEq]
    exact compareElements_iff (!flipped) xs ys
  | .leaf c, .agg _ ys => cases c <;> simp [compare, MIRConst.key, Leaf.key]
  | .agg _ xs, .leaf d => cases d <;> simp [compare, MIRConst.key, Leaf.key]

lemma compareElements_iff (flipped : Bool) (xs ys : Elements T) :
    compareElements flipped xs ys = true ↔ xs.keys = ys.keys := by
  match xs, ys with
  | .nil, .nil => simp [compareElements]
  | .cons _ c rest, .cons _ d rest' =>
    rw [compareElements, Elements.keys, Elements.keys, Bool.and_eq_true, List.cons.injEq,
      compare_iff flipped c d, compareElements_iff flipped rest rest']
  | .nil, .cons _ _ _ => simp [compareElements, Elements.keys]
  | .cons _ _ _, .nil => simp [compareElements, Elements.keys]

end

lemma MIRConst.eq_iff {c d : MIRConst T} : c.eq d = true ↔ c.key = d.key := compare_iff false c d

/-! ### The values of equal constants -/

lemma floatingKey_eq_some {C β : Type} {isnan : C → Bool} {intValue : C → β} {c d : C}
    (h : floatingKey isnan intValue c = floatingKey isnan intValue d) :
    intValue c = intValue d ↔ (isnan c = true → intValue c = intValue d) := by
  rw [floatingKey, floatingKey] at h
  constructor
  · exact fun heq _ => heq
  · intro hnan
    by_cases hc : isnan c = true
    · exact hnan hc
    · rw [if_neg hc] at h
      split_ifs at h with hd
      exact Option.some.inj h

lemma Leaf.denote_eq_iff {c d : Leaf T} (h : c.key = d.key) :
    c.denote = d.denote ↔ c.Condition d := by
  cases c <;> cases d <;> simp only [key, reduceCtorEq] at h
  case int.int type value hs type' value' hs' =>
    obtain ⟨rfl, hvalue⟩ := Key.int.inj h
    have hwidth : value.width = value'.width := congrArg IntVal.Shape.width (hs.trans hs'.symm)
    exact iff_of_true (by rw [denote, denote, hwidth, hvalue]) trivial
  case addrof.addrof =>
    obtain ⟨rfl, rfl, rfl⟩ := Key.addrof.inj h
    rw [denote, denote, Value.symbol.injEq, Condition]
    omega
  case addroffunc.addroffunc =>
    obtain ⟨rfl, rfl⟩ := Key.addroffunc.inj h
    exact iff_of_true rfl trivial
  case lbl.lbl =>
    obtain rfl := Key.lbl.inj h
    rw [denote, denote, Value.label.injEq, Condition]
    exact and_iff_left rfl
  case str.str =>
    obtain ⟨rfl, rfl⟩ := Key.str.inj h
    exact iff_of_true rfl trivial
  case str16.str16 =>
    obtain ⟨rfl, rfl⟩ := Key.str16.inj h
    exact iff_of_true rfl trivial
  case float.float =>
    rw [denote, denote, Value.bits.injEq, Condition, UInt32.toNat_inj]
    exact (and_iff_right rfl).trans (floatingKey_eq_some (Key.float.inj h))
  case double.double =>
    rw [denote, denote, Value.bits.injEq, Condition, UInt64.toNat_inj]
    exact (and_iff_right rfl).trans (floatingKey_eq_some (Key.double.inj h))
  case float128.float128 =>
    obtain rfl := Key.float128.inj h
    exact iff_of_true rfl trivial

lemma fieldValues_eq_iff {es es' : List (Nat × Value)}
    (hids : es.map Prod.fst = es'.map Prod.fst) :
    (∀ fieldId, fieldValues false es fieldId = fieldValues false es' fieldId) ↔ es = es' := by
  constructor
  · intro h
    induction es generalizing es' with
    | nil => exact (List.map_eq_nil_iff.mp hids.symm).symm
    | cons e es ih =>
      obtain ⟨e', es', rfl⟩ := List.exists_cons_of_ne_nil (l := es') (by rintro rfl; simp at hids)
      obtain ⟨hid, htail⟩ := List.cons.inj hids
      have hhead : e = e' := by
        have := h e.1
        simp only [fieldValues, Bool.false_eq_true, ↓reduceIte, List.filter_cons, beq_self_eq_true,
          ← hid, List.map_cons, List.cons.injEq] at this
        exact Prod.ext hid this.1
      subst hhead
      rw [ih htail]
      intro fieldId
      have := h fieldId
      simp only [fieldValues, Bool.false_eq_true, ↓reduceIte, List.filter_cons] at this ⊢
      split_ifs at this with heq
      · simpa using this
      · exact this
  · rintro rfl fieldId
    rfl

lemma Elements.map_fst_denote (xs : Elements T) : xs.denote.map Prod.fst = xs.fieldIds := by
  match xs with
  | .nil => rfl
  | .cons fieldId c rest =>
    rw [denote, fieldIds, List.map_cons, rest.map_fst_denote]

lemma Elements.length_denote (xs : Elements T) : xs.denote.length = xs.keys.length := by
  match xs with
  | .nil => rfl
  | .cons fieldId c rest =>
    rw [denote, keys, List.length_cons, List.length_cons, rest.length_denote]

lemma exists_fieldValues_eq_nil (es : List (Nat × Value)) :
    ∃ fieldId, fieldValues false es fieldId = [] := by
  obtain ⟨fieldId, h⟩ := (es.map Prod.fst).toFinset.exists_notMem
  refine ⟨fieldId, ?_⟩
  rw [fieldValues, if_neg Bool.false_ne_true, List.map_eq_nil_iff, List.filter_eq_nil_iff]
  rintro e he heq
  rw [beq_iff_eq] at heq
  exact h (List.mem_toFinset.mpr (List.mem_map.mpr ⟨e, he, heq⟩))

lemma fieldValues_mixed_iff {es es' : List (Nat × Value)} (hlen : es.length = es'.length) :
    (∀ fieldId, fieldValues true es fieldId = fieldValues false es' fieldId) ↔ es = [] := by
  constructor
  · intro h
    obtain ⟨fieldId, hnil⟩ := exists_fieldValues_eq_nil es'
    have hhead := (h fieldId).trans hnil
    rw [fieldValues, if_pos rfl, List.map_eq_nil_iff, Option.toList_eq_nil_iff,
      List.head?_eq_none_iff] at hhead
    exact hhead
  · rintro rfl fieldId
    obtain rfl : es' = [] := List.eq_nil_of_length_eq_zero hlen.symm
    rfl

mutual

lemma MIRConst.denote_eq_iff (c d : MIRConst T) (h : c.key = d.key) :
    c.denote = d.denote ↔ c.Condition d := by
  match c, d with
  | .leaf c, .leaf d =>
    rw [MIRConst.denote, MIRConst.denote, MIRConst.Condition]
    exact Leaf.denote_eq_iff h
  | .agg type xs, .agg type' ys =>
    have hkeys : xs.keys = ys.keys := Key.agg.inj h
    have hlen : xs.denote.length = ys.denote.length := by
      rw [xs.length_denote, ys.length_denote, hkeys]
    have hnil : xs.denote = [] ↔ xs.fieldIds = [] := by
      rw [← xs.map_fst_denote, List.map_eq_nil_iff]
    rw [MIRConst.denote, MIRConst.denote, MIRConst.Condition, Value.aggregate.injEq, funext_iff]
    cases hu : T.isUnion type <;> cases hu' : T.isUnion type'
    · rw [if_neg (by simp), if_neg (by simp)]
      split_ifs with hids
      · rw [fieldValues_eq_iff (by rw [xs.map_fst_denote, ys.map_fst_denote, hids])]
        exact Elements.denote_eq_iff xs ys hkeys hids
      · exact Iff.rfl
    · rw [if_neg (by simp), if_pos (by simp), ← hnil]
      have hmixed := fieldValues_mixed_iff hlen.symm
      simp only [eq_comm (a := fieldValues false _ _)]
      rw [hmixed, ← List.length_eq_zero_iff, ← hlen, List.length_eq_zero_iff]
    · rw [if_neg (by simp), if_pos (by simp), ← hnil]
      exact fieldValues_mixed_iff hlen
    · rw [if_pos ⟨rfl, rfl⟩]
      exact Elements.head_denote_eq_iff xs ys hkeys
  | .leaf c, .agg _ ys => cases c <;> simp [MIRConst.key, Leaf.key] at h
  | .agg _ xs, .leaf d => cases d <;> simp [MIRConst.key, Leaf.key] at h

lemma Elements.denote_eq_iff (xs ys : Elements T) (h : xs.keys = ys.keys)
    (hids : xs.fieldIds = ys.fieldIds) : xs.denote = ys.denote ↔ xs.Condition ys := by
  match xs, ys with
  | .nil, .nil => simp [Elements.Condition]
  | .cons fieldId c rest, .cons fieldId' d rest' =>
    obtain ⟨hc, hrest⟩ := List.cons.inj h
    obtain ⟨hid, hids⟩ := List.cons.inj hids
    rw [Elements.denote, Elements.denote, Elements.Condition, List.cons.injEq, Prod.mk.injEq,
      c.denote_eq_iff d hc, rest.denote_eq_iff rest' hrest hids]
    exact and_congr_left fun _ => and_iff_right hid
  | .nil, .cons _ _ _ => simp [Elements.keys] at h
  | .cons _ _ _, .nil => simp [Elements.keys] at h

lemma Elements.head_denote_eq_iff (xs ys : Elements T) (h : xs.keys = ys.keys) :
    (∀ fieldId, fieldValues true xs.denote fieldId = fieldValues true ys.denote fieldId) ↔
      xs.HeadCondition ys := by
  match xs, ys with
  | .nil, .nil => simp [Elements.HeadCondition]
  | .cons _ c rest, .cons _ d rest' =>
    rw [Elements.HeadCondition, ← c.denote_eq_iff d (List.cons.inj h).1]
    simp [fieldValues, Elements.denote]
  | .nil, .cons _ _ _ => simp [Elements.keys] at h
  | .cons _ _ _, .nil => simp [Elements.keys] at h

end

/-- `operator==` is an equivalence, and the constants it calls equal denote the same value exactly
when the fields that it leaves out agree too. -/
theorem eq_denote_iff (c d e : MIRConst T) :
    c.eq c = true ∧ c.eq d = d.eq c ∧ (c.eq d = true → d.eq e = true → c.eq e = true) ∧
      (c.eq d = true → (c.denote = d.denote ↔ c.Condition d)) := by
  refine ⟨MIRConst.eq_iff.mpr rfl, ?_, ?_, ?_⟩
  · rw [Bool.eq_iff_iff, MIRConst.eq_iff, MIRConst.eq_iff]
    exact eq_comm
  · rw [MIRConst.eq_iff, MIRConst.eq_iff, MIRConst.eq_iff]
    exact Eq.trans
  · exact fun h => c.denote_eq_iff d (MIRConst.eq_iff.mp h)

/-- One type, and no strings or fields. -/
def ptrTables : ConstTables where
  MIRType := Unit
  decEq := inferInstance
  shape _ := ⟨64, false, IntVal.Shape.pos_64, IntVal.Shape.numWords_64⟩
  isUnion _ := false
  uStrTable _ := []
  u16StrTable _ := []
  fieldOffset _ _ := 0

/-- Two offsets from one symbol are called equal. -/
theorem not_eq_denote_addrof : ¬∀ (T : ConstTables) (c d : MIRConst T),
    c.eq d = true → c.denote = d.denote := by
  intro h
  have hvalue := h ptrTables (.leaf (.addrof () 1 0 0)) (.leaf (.addrof () 1 0 4)) (by decide)
  exact absurd (Value.symbol.inj hvalue).2 (by decide)

end ConstTables
end Maple
