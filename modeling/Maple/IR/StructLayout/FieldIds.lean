import Maple.IR.StructLayout.Basic
import Mathlib.Logic.Function.Basic

/-!
# Field ids and the table of offsets

The fields of a struct or union and of the structs embedded in it are numbered in one sequence, an
embedded struct before its own fields. `TraverseToFieldRef` finds the field with an id,
`ComputeLayout` writes the offsets of all fields into a table, and tables are kept with the types
that they belong to. The ids themselves are counted without a bound here.
-/

namespace Maple
namespace StructLayout

deriving instance DecidableEq for MIRType, Fields

/-! ### Field ids -/

mutual

def MIRType.numberOfFieldIDs : MIRType → Nat
  | .array _ _ _ elem _ => elem.numberOfFieldIDs
  | .struct _ _ fields | .union _ _ fields => fields.numberOfFieldIDs
  | .prim _ | .bitField _ _ => 0

def Fields.numberOfFieldIDs : Fields → Nat
  | .nil => 0
  | .cons _ type rest => 1 + type.numberOfFieldIDs + rest.numberOfFieldIDs

end

/-- The field pair that is found. One struct can be embedded in several places, so that the way to
the field is kept with the pair: the index of the embedded field in each struct. -/
structure FieldRef where
  path : List Nat
  attrs : FieldAttrs
  type : MIRType

mutual

/-- `TraverseToFieldRef` of the `EmbeddedStructType`, with what is left of the field id. -/
def MIRType.traverseToFieldRef : MIRType → Nat → Option FieldRef × Nat
  | .array _ _ _ elem _, fieldID => elem.traverseToFieldRef fieldID
  | .struct _ _ fields, fieldID | .union _ _ fields, fieldID => fields.traverseFrom 0 fieldID
  | .prim _, fieldID | .bitField _ _, fieldID => (none, fieldID)

/-- The loop of `TraverseToFieldRef` from the field `fieldIdx` on. -/
def Fields.traverseFrom (fieldIdx : Nat) : Fields → Nat → Option FieldRef × Nat
  | .nil, fieldID => (none, fieldID)
  | .cons attrs type rest, fieldID =>
    if fieldID > 1 then
      match type.traverseToFieldRef (fieldID - 1) with
      | (some ref, 1) => (some { ref with path := fieldIdx :: ref.path }, 1)
      | (_, fieldID) => rest.traverseFrom (fieldIdx + 1) fieldID
    else (some ⟨[fieldIdx], attrs, type⟩, fieldID)

end

/-! ### The table -/

/-- The tables kept with the types. -/
abbrev LayoutCache := MIRType → List OffsetPair

/-- The field as `ComputeLayout` looks at it. -/
def fieldOf (targAArch64 : Bool) (attrs : FieldAttrs) : MIRType → Field
  | .bitField baseLog fieldSize => ⟨attrs, .bitField baseLog fieldSize⟩
  | type => ⟨attrs, .plain (type.getSize targAArch64) (type.getAlign targAArch64)
      type.isIncompleteArray⟩

/-- One round of `ComputeLayout`, or of `ComputeUnionLayout` where no attributes are given: the
fields of a union begin at its begin. -/
def placeIn (attrs : Option TypeAttrs) (c : Cursor) (f : Field) : OffsetPair × Cursor :=
  match attrs with
  | some attrs => place attrs c f
  | none => (⟨0, 0⟩, c)

/-- The entries of an embedded struct. -/
def shiftLayout (attrs : Option TypeAttrs) (offset : Nat) (layout : List OffsetPair) :
    List OffsetPair :=
  match attrs with
  | some _ => layout.map fun pair => ⟨u32 (offset + pair.byteOffset), pair.bitOffset⟩
  | none => layout

/-- The begin and the end of `ComputeLayout`: a complete table is left as it is, and otherwise the
entries are appended and their number is checked. -/
def computeIfMissing (type : MIRType) (fieldIDs : Nat)
    (add : LayoutCache → Option (List OffsetPair × LayoutCache)) (cache : LayoutCache) :
    Option (List OffsetPair × LayoutCache) :=
  if (cache type).length = fieldIDs then some (cache type, cache)
  else
    match add cache with
    | none => none
    | some (layouts, cache') =>
      let layout := cache type ++ layouts
      if layout.length = fieldIDs then some (layout, Function.update cache' type layout) else none

mutual

/-- `ComputeLayout` and `GetFieldLayout` of the `EmbeddedStructType`. There is no result if a
`CHECK_FATAL` fails. -/
def MIRType.getFieldLayout (targAArch64 : Bool) (type : MIRType) (cache : LayoutCache) :
    Option (List OffsetPair × LayoutCache) :=
  match type with
  | .array _ _ _ elem _ => elem.getFieldLayout targAArch64 cache
  | .struct isCPlusPlus attrs fields =>
    computeIfMissing (.struct isCPlusPlus attrs fields) fields.numberOfFieldIDs
      (fields.addFieldLayouts targAArch64 (some attrs) {}) cache
  | .union isCPlusPlus attrs fields =>
    computeIfMissing (.union isCPlusPlus attrs fields) fields.numberOfFieldIDs
      (fields.addFieldLayouts targAArch64 none {}) cache
  | .prim _ | .bitField _ _ => some ([], cache)

/-- The loop of `ComputeLayout`: the entries that it adds. -/
def Fields.addFieldLayouts (targAArch64 : Bool) (attrs : Option TypeAttrs) (c : Cursor)
    (fields : Fields) (cache : LayoutCache) : Option (List OffsetPair × LayoutCache) :=
  match fields with
  | .nil => some ([], cache)
  | .cons fieldAttrs type rest =>
    let (pair, c) := placeIn attrs c (fieldOf targAArch64 fieldAttrs type)
    match type.getFieldLayout targAArch64 cache with
    | none => none
    | some (layout, cache) =>
      (rest.addFieldLayouts targAArch64 attrs c cache).map fun (layouts, cache) =>
        (pair :: shiftLayout attrs pair.byteOffset layout ++ layouts, cache)

end

/-! ### The table of a type -/

mutual

/-- The table that belongs to a type. -/
def MIRType.layoutTable (targAArch64 : Bool) : MIRType → List OffsetPair
  | .array _ _ _ elem _ => elem.layoutTable targAArch64
  | .struct _ attrs fields => fields.layoutTable targAArch64 (some attrs) {}
  | .union _ _ fields => fields.layoutTable targAArch64 none {}
  | .prim _ | .bitField _ _ => []

def Fields.layoutTable (targAArch64 : Bool) (attrs : Option TypeAttrs) (c : Cursor) :
    Fields → List OffsetPair
  | .nil => []
  | .cons fieldAttrs type rest =>
    let (pair, c) := placeIn attrs c (fieldOf targAArch64 fieldAttrs type)
    pair :: shiftLayout attrs pair.byteOffset (type.layoutTable targAArch64) ++
      rest.layoutTable targAArch64 attrs c

end

@[simp] lemma length_shiftLayout (attrs : Option TypeAttrs) (offset : Nat)
    (layout : List OffsetPair) : (shiftLayout attrs offset layout).length = layout.length := by
  cases attrs <;> simp [shiftLayout]

mutual

lemma MIRType.length_layoutTable (targAArch64 : Bool) (type : MIRType) :
    (type.layoutTable targAArch64).length = type.numberOfFieldIDs := by
  match type with
  | .array _ _ _ elem _ =>
    simpa [MIRType.layoutTable, MIRType.numberOfFieldIDs] using elem.length_layoutTable targAArch64
  | .struct _ attrs fields =>
    simpa [MIRType.layoutTable, MIRType.numberOfFieldIDs] using
      fields.length_layoutTable targAArch64 (some attrs) {}
  | .union _ _ fields =>
    simpa [MIRType.layoutTable, MIRType.numberOfFieldIDs] using
      fields.length_layoutTable targAArch64 none {}
  | .prim _ => rfl
  | .bitField _ _ => rfl

lemma Fields.length_layoutTable (targAArch64 : Bool) (attrs : Option TypeAttrs) (c : Cursor)
    (fields : Fields) :
    (fields.layoutTable targAArch64 attrs c).length = fields.numberOfFieldIDs := by
  match fields with
  | .nil => rfl
  | .cons fieldAttrs type rest =>
    simp only [Fields.layoutTable, Fields.numberOfFieldIDs, List.length_append, List.length_cons,
      length_shiftLayout, type.length_layoutTable targAArch64,
      rest.length_layoutTable targAArch64 attrs]
    omega

end

/-- Every type has its table or none yet. -/
def LayoutCache.Consistent (targAArch64 : Bool) (cache : LayoutCache) : Prop :=
  ∀ type, cache type = [] ∨ cache type = type.layoutTable targAArch64

lemma computeIfMissing_spec {targAArch64 : Bool} (type : MIRType) {cache cache' : LayoutCache}
    {add : LayoutCache → Option (List OffsetPair × LayoutCache)}
    (hcache : cache.Consistent targAArch64) (hcache' : cache'.Consistent targAArch64)
    (hadd : add cache = some (type.layoutTable targAArch64, cache')) :
    ∃ cache'', computeIfMissing type type.numberOfFieldIDs add cache =
        some (type.layoutTable targAArch64, cache'') ∧ cache''.Consistent targAArch64 := by
  have hlength := type.length_layoutTable targAArch64
  unfold computeIfMissing
  by_cases hcomplete : (cache type).length = type.numberOfFieldIDs
  · rw [if_pos hcomplete]
    refine ⟨cache, ?_, hcache⟩
    obtain hempty | htable := hcache type
    · -- a type without fields has an empty table
      rw [hempty, List.length_nil] at hcomplete
      rw [hempty, List.length_eq_zero_iff.mp (hlength.trans hcomplete.symm)]
    · rw [htable]
  · have hempty : cache type = [] := by
      refine (hcache type).resolve_right fun htable => hcomplete ?_
      rw [htable, hlength]
    rw [if_neg hcomplete, hadd]
    simp only [hempty, List.nil_append, if_pos hlength]
    refine ⟨_, rfl, fun type' => ?_⟩
    by_cases htype : type' = type
    · subst htype
      exact .inr (Function.update_self ..)
    · rw [Function.update_of_ne htype]
      exact hcache' type'

mutual

lemma MIRType.getFieldLayout_eq {targAArch64 : Bool} (type : MIRType) {cache : LayoutCache}
    (hcache : cache.Consistent targAArch64) :
    ∃ cache', type.getFieldLayout targAArch64 cache =
        some (type.layoutTable targAArch64, cache') ∧ cache'.Consistent targAArch64 := by
  match type with
  | .array _ _ _ elem _ =>
    simpa only [MIRType.getFieldLayout, MIRType.layoutTable] using elem.getFieldLayout_eq hcache
  | .struct isCPlusPlus attrs fields =>
    obtain ⟨cache', hadd, hcache'⟩ := fields.addFieldLayouts_eq (some attrs) {} hcache
    simpa only [MIRType.getFieldLayout, MIRType.numberOfFieldIDs, MIRType.layoutTable] using
      computeIfMissing_spec (.struct isCPlusPlus attrs fields) hcache hcache' hadd
  | .union isCPlusPlus attrs fields =>
    obtain ⟨cache', hadd, hcache'⟩ := fields.addFieldLayouts_eq none {} hcache
    simpa only [MIRType.getFieldLayout, MIRType.numberOfFieldIDs, MIRType.layoutTable] using
      computeIfMissing_spec (.union isCPlusPlus attrs fields) hcache hcache' hadd
  | .prim _ => exact ⟨cache, rfl, hcache⟩
  | .bitField _ _ => exact ⟨cache, rfl, hcache⟩

lemma Fields.addFieldLayouts_eq {targAArch64 : Bool} (attrs : Option TypeAttrs) (c : Cursor)
    (fields : Fields) {cache : LayoutCache} (hcache : cache.Consistent targAArch64) :
    ∃ cache', fields.addFieldLayouts targAArch64 attrs c cache =
        some (fields.layoutTable targAArch64 attrs c, cache') ∧ cache'.Consistent targAArch64 := by
  match fields with
  | .nil => exact ⟨cache, rfl, hcache⟩
  | .cons fieldAttrs type rest =>
    obtain ⟨cache₁, htype, hcache₁⟩ := type.getFieldLayout_eq hcache
    obtain ⟨cache₂, hrest, hcache₂⟩ := rest.addFieldLayouts_eq attrs
      (placeIn attrs c (fieldOf targAArch64 fieldAttrs type)).2 hcache₁
    refine ⟨cache₂, ?_, hcache₂⟩
    simp only [Fields.addFieldLayouts, htype, hrest, Option.map_some, Fields.layoutTable]

end

/-! ### The way to a field -/

def Fields.pairs : Fields → List (FieldAttrs × MIRType)
  | .nil => []
  | .cons attrs type rest => (attrs, type) :: rest.pairs

/-- The field pairs of the embedded struct. -/
def MIRType.fieldPairs : MIRType → List (FieldAttrs × MIRType)
  | .array _ _ _ elem _ => elem.fieldPairs
  | .struct _ _ fields | .union _ _ fields => fields.pairs
  | .prim _ | .bitField _ _ => []

/-- The offsets of its fields in the embedded struct, without the fields of fields. -/
def MIRType.ownLayout (targAArch64 : Bool) : MIRType → List OffsetPair
  | .array _ _ _ elem _ => elem.ownLayout targAArch64
  | .struct _ attrs fields => (placeAll attrs {} (fields.list targAArch64)).1
  | .union _ _ fields => (fields.list targAArch64).map fun _ => ⟨0, 0⟩
  | .prim _ | .bitField _ _ => []

/-- The field at the end of a way from fields on. -/
def fieldIn : List (FieldAttrs × MIRType) → List Nat → Option (FieldAttrs × MIRType)
  | _, [] => none
  | pairs, [i] => pairs[i]?
  | pairs, i :: j :: path => pairs[i]?.bind fun field => fieldIn field.2.fieldPairs (j :: path)

/-- The offsets of the fields along a way, each in its struct. -/
def MIRType.offsetsAlong (targAArch64 : Bool) : MIRType → List Nat → Option (List OffsetPair)
  | _, [] => some []
  | type, i :: path =>
    match (type.ownLayout targAArch64)[i]?, type.fieldPairs[i]? with
    | some pair, some field => (field.2.offsetsAlong targAArch64 path).map (pair :: ·)
    | _, _ => none

/-- The sum of the offsets along a way, with the bit offset of the last field. -/
def sumOffsets (offsets : List OffsetPair) : OffsetPair :=
  ⟨u32 (offsets.map OffsetPair.byteOffset).sum, (offsets.getLast?.map OffsetPair.bitOffset).getD 0⟩

/-! ### Offsets of fields in their struct -/

lemma u32_lt (n : Nat) : u32 n < 2 ^ 32 := Nat.mod_lt _ (Nat.two_pow_pos 32)

lemma roundUp_lt {offset align : Nat} (h : offset < 2 ^ 32) : roundUp offset align < 2 ^ 32 := by
  unfold roundUp
  split_ifs
  · exact h
  · exact (Nat.sub_le _ _).trans_lt (u32_lt _)

lemma placeIn_lt (attrs : Option TypeAttrs) {c : Cursor} (f : Field) (hc : c.allocedSize < 2 ^ 32) :
    (placeIn attrs c f).1.byteOffset < 2 ^ 32 ∧ (placeIn attrs c f).2.allocedSize < 2 ^ 32 := by
  cases attrs with
  | none => exact ⟨Nat.two_pow_pos 32, hc⟩
  | some attrs =>
    simp only [placeIn, place]
    cases f.type with
    | bitField baseLog fieldSize =>
      refine ⟨u32_lt _, max_lt hc ?_⟩
      exact (Nat.div_le_self _ _).trans_lt (roundUp_lt (u32_lt _))
    | plain size align isIncompleteArray =>
      simp only [placePlain]
      split_ifs
      · exact ⟨roundUp_lt hc, roundUp_lt hc⟩
      · exact ⟨roundUp_lt hc, u32_lt _⟩
      · refine ⟨u32_lt _, max_lt (roundUp_lt hc) ?_⟩
        exact (Nat.div_le_self _ _).trans_lt (roundUp_lt (u32_lt _))
      · refine ⟨u32_lt _, max_lt (roundUp_lt hc) ?_⟩
        exact (Nat.div_le_self _ _).trans_lt (roundUp_lt (u32_lt _))

/-- The offsets of the fields from a cursor on. -/
def Fields.ownLayout (targAArch64 : Bool) (attrs : Option TypeAttrs) (c : Cursor) :
    Fields → List OffsetPair
  | .nil => []
  | .cons fieldAttrs type rest =>
    let (pair, c) := placeIn attrs c (fieldOf targAArch64 fieldAttrs type)
    pair :: rest.ownLayout targAArch64 attrs c

lemma Fields.list_cons (targAArch64 : Bool) (attrs : FieldAttrs) (type : MIRType) (rest : Fields) :
    (Fields.cons attrs type rest).list targAArch64 =
      fieldOf targAArch64 attrs type :: rest.list targAArch64 := by
  cases type <;> rfl

lemma Fields.ownLayout_some (targAArch64 : Bool) (attrs : TypeAttrs) (c : Cursor)
    (fields : Fields) :
    fields.ownLayout targAArch64 (some attrs) c =
      (placeAll attrs c (fields.list targAArch64)).1 := by
  match fields with
  | .nil => rfl
  | .cons fieldAttrs type rest =>
    simp only [Fields.ownLayout, rest.ownLayout_some, Fields.list_cons, placeAll, placeIn]

lemma Fields.ownLayout_none (targAArch64 : Bool) (c : Cursor) (fields : Fields) :
    fields.ownLayout targAArch64 none c = (fields.list targAArch64).map fun _ => ⟨0, 0⟩ := by
  match fields with
  | .nil => rfl
  | .cons fieldAttrs type rest =>
    simp only [Fields.ownLayout, rest.ownLayout_none, Fields.list_cons, List.map_cons, placeIn]

/-! ### Fields and entries -/

lemma sumOffsets_singleton {pair : OffsetPair} (h : pair.byteOffset < 2 ^ 32) :
    sumOffsets [pair] = pair := by
  simp only [sumOffsets, u32, List.map_cons, List.map_nil, List.sum_singleton, Nat.mod_eq_of_lt h,
    List.getLast?_singleton, Option.map_some, Option.getD_some]

lemma sumOffsets_cons (pair : OffsetPair) {offsets : List OffsetPair} (hne : offsets ≠ []) :
    sumOffsets (pair :: offsets) = ⟨u32 (pair.byteOffset + (sumOffsets offsets).byteOffset),
      (sumOffsets offsets).bitOffset⟩ := by
  obtain ⟨last, hlast⟩ := List.getLast?_isSome.mpr hne |> Option.isSome_iff_exists.mp
  simp [sumOffsets, u32, List.getLast?_cons, hlast]

/-- A field is found, the fields being those from `fieldIdx` on: `found` is the field at the end of
the way, and the entry with its id is the sum of the offsets along the way. -/
def Finds (targAArch64 : Bool) (pairs : List (FieldAttrs × MIRType)) (own table : List OffsetPair)
    (fieldIdx fieldID : Nat) (found : Option FieldRef × Nat) : Prop :=
  ∃ i path attrs type pair field offsets,
    found = (some ⟨(fieldIdx + i) :: path, attrs, type⟩, 1) ∧
      fieldIn pairs (i :: path) = some (attrs, type) ∧ own[i]? = some pair ∧
        pairs[i]? = some field ∧ field.2.offsetsAlong targAArch64 path = some offsets ∧
          table[fieldID - 1]? = some (sumOffsets (pair :: offsets))

lemma Finds.cons {targAArch64 : Bool} {pairs : List (FieldAttrs × MIRType)}
    {own table table' : List OffsetPair} {fieldIdx fieldID fieldID' : Nat}
    {found : Option FieldRef × Nat}
    (h : Finds targAArch64 pairs own table (fieldIdx + 1) fieldID found)
    (htable : table'[fieldID' - 1]? = table[fieldID - 1]?) (field : FieldAttrs × MIRType)
    (pair : OffsetPair) :
    Finds targAArch64 (field :: pairs) (pair :: own) table' fieldIdx fieldID' found := by
  obtain ⟨i, path, attrs, type, pair', field', offsets, hfound, hfield, hpair, hfield', hoffsets,
    hentry⟩ := h
  refine ⟨i + 1, path, attrs, type, pair', field', offsets, ?_, ?_, hpair, hfield', hoffsets,
    htable.trans hentry⟩
  · rw [hfound, Nat.add_right_comm, Nat.add_assoc]
  · cases path with
    | nil => exact hfield
    | cons j path => exact hfield

lemma shiftLayout_getElem? {attrs : Option TypeAttrs} {pair : OffsetPair}
    {offsets table : List OffsetPair} {i : Nat} (hpair : attrs = none → pair = ⟨0, 0⟩)
    (hne : offsets ≠ []) (h : table[i]? = some (sumOffsets offsets)) :
    (shiftLayout attrs pair.byteOffset table)[i]? = some (sumOffsets (pair :: offsets)) := by
  rw [sumOffsets_cons pair hne]
  cases attrs with
  | none =>
    obtain rfl := hpair rfl
    simp [shiftLayout, h, sumOffsets, u32]
  | some attrs => simp [shiftLayout, h]

mutual

lemma MIRType.traverseToFieldRef_spec (targAArch64 : Bool) (type : MIRType) {fieldID : Nat}
    (hid : 1 ≤ fieldID) :
    (fieldID ≤ type.numberOfFieldIDs →
      Finds targAArch64 type.fieldPairs (type.ownLayout targAArch64)
        (type.layoutTable targAArch64) 0 fieldID (type.traverseToFieldRef fieldID)) ∧
    (type.numberOfFieldIDs < fieldID →
      type.traverseToFieldRef fieldID = (none, fieldID - type.numberOfFieldIDs)) := by
  match type with
  | .array _ _ _ elem _ =>
    simpa only [MIRType.fieldPairs, MIRType.ownLayout, MIRType.layoutTable,
      MIRType.traverseToFieldRef, MIRType.numberOfFieldIDs] using
      elem.traverseToFieldRef_spec targAArch64 hid
  | .struct _ attrs fields =>
    simpa only [MIRType.fieldPairs, MIRType.ownLayout, MIRType.layoutTable,
      MIRType.traverseToFieldRef, MIRType.numberOfFieldIDs, fields.ownLayout_some] using
      fields.traverseFrom_spec targAArch64 (some attrs) (c := {}) (Nat.two_pow_pos 32) 0 hid
  | .union _ _ fields =>
    simpa only [MIRType.fieldPairs, MIRType.ownLayout, MIRType.layoutTable,
      MIRType.traverseToFieldRef, MIRType.numberOfFieldIDs, fields.ownLayout_none] using
      fields.traverseFrom_spec targAArch64 none (c := {}) (Nat.two_pow_pos 32) 0 hid
  | .prim _ | .bitField _ _ =>
    refine ⟨fun hle => ?_, fun _ => rfl⟩
    simp only [MIRType.numberOfFieldIDs] at hle
    omega

lemma Fields.traverseFrom_spec (targAArch64 : Bool) (attrs : Option TypeAttrs) {c : Cursor}
    (hc : c.allocedSize < 2 ^ 32) (fieldIdx : Nat) (fields : Fields) {fieldID : Nat}
    (hid : 1 ≤ fieldID) :
    (fieldID ≤ fields.numberOfFieldIDs →
      Finds targAArch64 fields.pairs (fields.ownLayout targAArch64 attrs c)
        (fields.layoutTable targAArch64 attrs c) fieldIdx fieldID
        (fields.traverseFrom fieldIdx fieldID)) ∧
    (fields.numberOfFieldIDs < fieldID →
      fields.traverseFrom fieldIdx fieldID = (none, fieldID - fields.numberOfFieldIDs)) := by
  match fields with
  | .nil =>
    refine ⟨fun hle => ?_, fun _ => rfl⟩
    simp only [Fields.numberOfFieldIDs] at hle
    omega
  | .cons fieldAttrs type rest =>
    obtain ⟨hpair, hc'⟩ := placeIn_lt attrs (fieldOf targAArch64 fieldAttrs type) hc
    have hlength := type.length_layoutTable targAArch64
    simp only [Fields.pairs, Fields.ownLayout, Fields.layoutTable, Fields.numberOfFieldIDs,
      Fields.traverseFrom]
    set placed := placeIn attrs c (fieldOf targAArch64 fieldAttrs type) with hplaced
    obtain rfl | hgt := Nat.eq_or_lt_of_le hid
    · -- the id of the field itself
      refine ⟨fun _ => ?_, fun hlt => by omega⟩
      refine ⟨0, [], fieldAttrs, type, placed.1, (fieldAttrs, type), [], rfl, rfl, rfl, rfl, rfl,
        ?_⟩
      rw [sumOffsets_singleton hpair]
      rfl
    · have hid' : 1 ≤ fieldID - 1 := by omega
      obtain ⟨hfinds, hpast⟩ := type.traverseToFieldRef_spec targAArch64 hid'
      have hindex : fieldID - 1 = fieldID - 1 - 1 + 1 := by omega
      rw [if_pos hgt]
      obtain hinner | houter := Nat.lt_or_ge type.numberOfFieldIDs (fieldID - 1)
      · -- behind the embedded struct
        have hbehind : 1 ≤ fieldID - 1 - type.numberOfFieldIDs := by omega
        obtain ⟨hrest, hrestPast⟩ :=
          rest.traverseFrom_spec targAArch64 attrs hc' (fieldIdx + 1) hbehind
        rw [hpast hinner]
        refine ⟨fun hle => (hrest (by omega)).cons ?_ _ _, fun hlt => ?_⟩
        · rw [hindex, List.cons_append, List.getElem?_cons_succ, List.getElem?_append_right (by
            rw [length_shiftLayout]
            omega), length_shiftLayout, hlength]
          congr 1
          omega
        · refine (hrestPast (by omega)).trans ?_
          congr 1
          omega
      · -- in the embedded struct
        obtain ⟨i, path, attrs', type', pair, field, offsets, hfound, hfield, hown, hpairs,
          hoffsets, hentry⟩ := hfinds houter
        rw [hfound, Nat.zero_add]
        refine ⟨fun _ => ⟨0, i :: path, attrs', type', placed.1, (fieldAttrs, type),
          pair :: offsets, rfl, hfield, rfl, rfl, ?_, ?_⟩, fun hlt => by omega⟩
        · simp only [MIRType.offsetsAlong, hown, hpairs, hoffsets, Option.map_some]
        · rw [hindex, List.cons_append, List.getElem?_cons_succ, List.getElem?_append_left (by
            rw [length_shiftLayout]
            omega)]
          refine shiftLayout_getElem? (fun hunion => ?_) (List.cons_ne_nil _ _) hentry
          rw [hplaced, hunion]
          rfl

end

/-- After `ComputeLayout`, whatever tables there were before, the table of a type has an entry for
every field id, and the entry of an id is the sum of the offsets along the way to the field that
`TraverseToFieldRef` finds for it. -/
theorem getFieldLayout_traverseToFieldRef (targAArch64 : Bool) (type : MIRType)
    {cache : LayoutCache} (hcache : cache.Consistent targAArch64) :
    ∃ table cache', type.getFieldLayout targAArch64 cache = some (table, cache') ∧
      cache'.Consistent targAArch64 ∧ table.length = type.numberOfFieldIDs ∧
      ∀ k, 1 ≤ k → k ≤ type.numberOfFieldIDs → ∃ ref offsets,
        type.traverseToFieldRef k = (some ref, 1) ∧
          fieldIn type.fieldPairs ref.path = some (ref.attrs, ref.type) ∧
            type.offsetsAlong targAArch64 ref.path = some offsets ∧
              table[k - 1]? = some (sumOffsets offsets) := by
  obtain ⟨cache', hlayout, hcache'⟩ := type.getFieldLayout_eq hcache
  refine ⟨_, cache', hlayout, hcache', type.length_layoutTable targAArch64, fun k hk hle => ?_⟩
  obtain ⟨i, path, attrs, fieldType, pair, field, offsets, hfound, hfield, hown, hpairs, hoffsets,
    hentry⟩ := (type.traverseToFieldRef_spec targAArch64 hk).1 hle
  rw [Nat.zero_add] at hfound
  refine ⟨_, pair :: offsets, hfound, hfield, ?_, hentry⟩
  simp only [MIRType.offsetsAlong, hown, hpairs, hoffsets, Option.map_some]

/-- `struct { i8 a; union { struct { i16 x; i16 y; } s; i32 z; } u; i8 b; }` before any table is
known. -/
def nestedExample : MIRType :=
  .struct false {} (.cons {} (.prim 0) (.cons {} (.union false {}
    (.cons {} (.struct false {} (.cons {} (.prim 1) (.cons {} (.prim 1) .nil)))
      (.cons {} (.prim 2) .nil))) (.cons {} (.prim 0) .nil)))

theorem getFieldLayout_traverseToFieldRef_example :
    ∃ table cache', nestedExample.getFieldLayout true (fun _ => []) = some (table, cache') ∧
      cache'.Consistent true ∧ table.length = nestedExample.numberOfFieldIDs ∧
      ∀ k, 1 ≤ k → k ≤ nestedExample.numberOfFieldIDs → ∃ ref offsets,
        nestedExample.traverseToFieldRef k = (some ref, 1) ∧
          fieldIn nestedExample.fieldPairs ref.path = some (ref.attrs, ref.type) ∧
            nestedExample.offsetsAlong true ref.path = some offsets ∧
              table[k - 1]? = some (sumOffsets offsets) :=
  getFieldLayout_traverseToFieldRef true nestedExample fun _ => .inl rfl

-- the fields of the union and of the struct in it all begin behind `a` and its padding
example : nestedExample.layoutTable true =
    [⟨0, 0⟩, ⟨4, 0⟩, ⟨4, 0⟩, ⟨4, 0⟩, ⟨6, 0⟩, ⟨4, 0⟩, ⟨8, 0⟩] := by
  decide

end StructLayout
end Maple
