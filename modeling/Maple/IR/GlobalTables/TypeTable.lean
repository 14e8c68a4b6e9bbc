import Maple.IR.PrimType
import Maple.Lib.LookupCreate

/-!
# The table of types

`TypeTable::GetOrCreateMIRTypeNode` (`global_tables.cpp`). Pointer types without attributes are
found in two maps from the type pointed to, all other types in a hash table. The lookup holds the
lock of the table as a reader and the creation holds it as a writer.
-/

namespace Maple
namespace TypeTable

/-- Types: pointers with their attributes `α`, and the others, up to `EqualTo`. -/
inductive MIRType (α σ : Type) where
  | ptr (pointedTyIdx : Nat) (primType : PrimType) (typeAttrs : α)
  | other (node : σ)
  deriving DecidableEq

/-- Where a type is looked up. -/
inductive TypeKey (α σ : Type) where
  | ptrTypeMap (pointedTyIdx : Nat)
  | refTypeMap (pointedTyIdx : Nat)
  | typeHashTable (type : MIRType α σ)
  deriving DecidableEq

end TypeTable

open TypeTable (MIRType)

/-- `TypeTable`. A type is the one at its index in `typeTable`; the hash table is given by the
element that it has for a type. -/
structure TypeTable (α σ : Type) where
  typeTable : List (MIRType α σ)
  ptrTypeMap : Nat → Option Nat
  refTypeMap : Nat → Option Nat
  typeHashTable : MIRType α σ → Option Nat

namespace TypeTable

variable {α σ : Type} [Inhabited α] [DecidableEq α] [DecidableEq σ]

/-- The map that `GetOrCreateMIRTypeNode` and `FillinTypeMapOrHashTable` choose. The attributes
`TypeAttrs()` are the default ones. -/
def key : MIRType α σ → TypeKey α σ
  | .ptr pointedTyIdx primType typeAttrs =>
    if typeAttrs = default then
      if primType ≠ .ref then .ptrTypeMap pointedTyIdx else .refTypeMap pointedTyIdx
    else .typeHashTable (.ptr pointedTyIdx primType typeAttrs)
  | .other node => .typeHashTable (.other node)

/-- The lookup under the shared lock. -/
def find (t : TypeTable α σ) : TypeKey α σ → Option Nat
  | .ptrTypeMap pointedTyIdx => t.ptrTypeMap pointedTyIdx
  | .refTypeMap pointedTyIdx => t.refTypeMap pointedTyIdx
  | .typeHashTable type => t.typeHashTable type

/-- `FillinTypeMapOrHashTable`. The maps are overwritten, and the hash table keeps an equal
element. -/
def fillinTypeMapOrHashTable (t : TypeTable α σ) (pType : MIRType α σ) (nType : Nat) :
    TypeTable α σ :=
  match key pType with
  | .ptrTypeMap pointedTyIdx =>
    { t with ptrTypeMap := Function.update t.ptrTypeMap pointedTyIdx (some nType) }
  | .refTypeMap pointedTyIdx =>
    { t with refTypeMap := Function.update t.refTypeMap pointedTyIdx (some nType) }
  | .typeHashTable type =>
    if (t.typeHashTable type).isSome then t
    else { t with typeHashTable := Function.update t.typeHashTable type (some nType) }

/-- `CreateAndUpdateMirTypeNode`: the index of the new type, and the table. -/
def createAndUpdateMirTypeNode (t : TypeTable α σ) (pType : MIRType α σ) : Nat × TypeTable α σ :=
  let nType := t.typeTable.length
  (nType, { t with typeTable := t.typeTable ++ [pType] }.fillinTypeMapOrHashTable pType nType)

/-- The `CHECK_FATAL` before a pointer type is created; `kPtyDerived` is the number of primitive
types. -/
def hasPtrOccurrence (kPtyDerived : Nat) (t : TypeTable α σ) : MIRType α σ → Bool
  | .ptr pointedTyIdx primType typeAttrs =>
    typeAttrs = default && pointedTyIdx ≥ kPtyDerived && primType = .ref &&
      (t.ptrTypeMap pointedTyIdx).isSome
  | .other _ => false

/-- The creation under the unique lock. -/
def create (kPtyDerived : Nat) (t : TypeTable α σ) (pType : MIRType α σ) :
    Option (Nat × TypeTable α σ) :=
  if t.hasPtrOccurrence kPtyDerived pType then none else some (t.createAndUpdateMirTypeNode pType)

/-- How many types of the table are looked up with a key. -/
def entries (t : TypeTable α σ) (k : TypeKey α σ) : Nat := t.typeTable.countP fun type => key type = k

/-- `GetOrCreateMIRTypeNode`: the table, its lookup and its creation. -/
def getOrCreateMIRTypeNode (kPtyDerived : Nat) :
    LookupCreate.Table (TypeTable α σ) (MIRType α σ) (TypeKey α σ) Nat where
  key := key
  find := find
  create := create kPtyDerived
  entries := entries

/-- The maps point to types of the table, and every type of the table is found. -/
structure Ok (t : TypeTable α σ) : Prop where
  lt_length : ∀ k i, t.find k = some i → i < t.typeTable.length
  covered : ∀ k, t.find k = none → t.entries k = 0

/-! ### What a creation changes -/

variable {t : TypeTable α σ} {type : MIRType α σ} {k : TypeKey α σ} {i : Nat}

lemma find_fillin_of_ne (h : k ≠ key type) :
    (t.fillinTypeMapOrHashTable type i).find k = t.find k := by
  rw [fillinTypeMapOrHashTable]
  generalize key type = k' at h
  cases k' with
  | ptrTypeMap idx =>
    cases k with
    | ptrTypeMap idx' => exact Function.update_of_ne (by simpa using h) _ _
    | refTypeMap idx' => rfl
    | typeHashTable type' => rfl
  | refTypeMap idx =>
    cases k with
    | ptrTypeMap idx' => rfl
    | refTypeMap idx' => exact Function.update_of_ne (by simpa using h) _ _
    | typeHashTable type' => rfl
  | typeHashTable type =>
    dsimp only
    split_ifs
    · rfl
    · cases k with
      | ptrTypeMap idx' => rfl
      | refTypeMap idx' => rfl
      | typeHashTable type' => exact Function.update_of_ne (by simpa using h) _ _

lemma find_fillin_of_none (h : t.find (key type) = none) :
    (t.fillinTypeMapOrHashTable type i).find (key type) = some i := by
  rw [fillinTypeMapOrHashTable]
  generalize key type = k' at h
  cases k' with
  | ptrTypeMap idx => exact Function.update_self _ _ _
  | refTypeMap idx => exact Function.update_self _ _ _
  | typeHashTable type =>
    have hnone : t.typeHashTable type = none := h
    simp only [hnone, Option.isSome_none, Bool.false_eq_true, if_false]
    exact Function.update_self _ _ _

lemma find_fillin_cases (t : TypeTable α σ) (type : MIRType α σ) (i : Nat) :
    (t.fillinTypeMapOrHashTable type i).find (key type) = some i ∨
      (t.fillinTypeMapOrHashTable type i).find (key type) = t.find (key type) ∧
        (t.find (key type)).isSome := by
  cases hfind : t.find (key type) with
  | none => exact Or.inl (find_fillin_of_none hfind)
  | some o =>
    rw [fillinTypeMapOrHashTable]
    generalize key type = k' at hfind
    cases k' with
    | ptrTypeMap idx => exact Or.inl (Function.update_self _ _ _)
    | refTypeMap idx => exact Or.inl (Function.update_self _ _ _)
    | typeHashTable type =>
      have hsome : t.typeHashTable type = some o := hfind
      simp only [hsome, Option.isSome_some, if_true]
      exact Or.inr ⟨hsome, trivial⟩

@[simp] lemma typeTable_fillin :
    (t.fillinTypeMapOrHashTable type i).typeTable = t.typeTable := by
  rw [fillinTypeMapOrHashTable]
  generalize key type = k'
  cases k' with
  | ptrTypeMap idx => rfl
  | refTypeMap idx => rfl
  | typeHashTable type =>
    dsimp only
    split_ifs <;> rfl

lemma create_eq_some {kPtyDerived o : Nat} {t' : TypeTable α σ}
    (h : t.create kPtyDerived type = some (o, t')) : o = t.typeTable.length ∧
      t' = { t with typeTable := t.typeTable ++ [type] }.fillinTypeMapOrHashTable type o := by
  rw [create] at h
  split_ifs at h
  simp only [createAndUpdateMirTypeNode, Option.some.injEq, Prod.mk.injEq] at h
  obtain ⟨rfl, rfl⟩ := h
  exact ⟨rfl, rfl⟩

lemma entries_append (k : TypeKey α σ) :
    ({ t with typeTable := t.typeTable ++ [type] } : TypeTable α σ).entries k =
      t.entries k + if key type = k then 1 else 0 := by
  simp [entries, List.countP_append, List.countP_cons]

lemma entries_fillin (k : TypeKey α σ) :
    (t.fillinTypeMapOrHashTable type i).entries k = t.entries k := by
  rw [entries, typeTable_fillin, entries]

lemma lawful (kPtyDerived : Nat) :
    (getOrCreateMIRTypeNode kPtyDerived :
      LookupCreate.Table (TypeTable α σ) (MIRType α σ) (TypeKey α σ) Nat).Lawful Ok where
  ok_create {t type o t'} hok hcreate := by
    obtain ⟨rfl, rfl⟩ := create_eq_some hcreate
    refine ⟨?_, ?_⟩
    · intro k i hfind
      rw [typeTable_fillin, List.length_append, List.length_singleton]
      by_cases hk : k = key type
      · subst hk
        rcases find_fillin_cases { t with typeTable := t.typeTable ++ [type] } type
          t.typeTable.length with hnew | ⟨hold, -⟩
        · rw [hnew] at hfind
          have := Option.some.inj hfind
          omega
        · rw [hold] at hfind
          have := hok.lt_length _ i hfind
          omega
      · rw [find_fillin_of_ne hk] at hfind
        have := hok.lt_length k i hfind
        omega
    · intro k hfind
      have hk : k ≠ key type := by
        rintro rfl
        rcases find_fillin_cases { t with typeTable := t.typeTable ++ [type] } type
          t.typeTable.length with hnew | ⟨hold, hsome⟩
        · simp [hnew] at hfind
        · rw [hold] at hfind
          simp [hfind] at hsome
      rw [find_fillin_of_ne hk] at hfind
      rw [entries_fillin, entries_append, hok.covered k hfind, if_neg (Ne.symm hk)]
  find_create hok hcreate hnone := by
    obtain ⟨rfl, rfl⟩ := create_eq_some hcreate
    exact find_fillin_of_none hnone
  find_create_of_ne hok hcreate hne := by
    obtain ⟨rfl, rfl⟩ := create_eq_some hcreate
    exact find_fillin_of_ne hne
  ne_of_find hok hcreate hfind := by
    obtain ⟨rfl, rfl⟩ := create_eq_some hcreate
    exact (hok.lt_length _ _ hfind).ne'
  entries_create {t type o t'} hok hcreate hnone := by
    obtain ⟨rfl, rfl⟩ := create_eq_some hcreate
    change entries _ (key type) = 1
    rw [entries_fillin, entries_append, if_pos rfl]
    have hzero : t.entries (key type) = 0 := hok.covered _ hnone
    rw [hzero]
  entries_create_of_ne {t type k o t'} hok hcreate hne := by
    obtain ⟨rfl, rfl⟩ := create_eq_some hcreate
    have hne : k ≠ key type := hne
    change entries _ k = entries _ k
    rw [entries_fillin, entries_append, if_neg (Ne.symm hne), Nat.add_zero]

end TypeTable
end Maple
