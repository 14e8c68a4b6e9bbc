import Maple.IR.GlobalTables.TypeTable
import Maple.Lib.LookupCreate
import Maple.Util.IntVal.Convert

/-!
# The table of integer constants

`IntConstTable` (`global_tables.cpp`). A constant is found by the argument that was given for it, and
keeps the number that the type cuts this down to.
-/

namespace Maple

open IntVal

/-- `MIRIntConst`; a type is given by its index. -/
structure MIRIntConst where
  value : IntVal
  tyIdx : UInt32

structure IntConstKey where
  val : Int64
  tyIdx : UInt32
  deriving DecidableEq

structure Int128ConstKey where
  val0 : UInt64
  val1 : UInt64
  tyIdx : UInt32
  deriving DecidableEq

/-- `IntConstCmp` of two `IntConstKey`s. -/
def IntConstKey.cmp (lkey rkey : IntConstKey) : Bool :=
  lkey.val == rkey.val && lkey.tyIdx == rkey.tyIdx

namespace Int128ConstKey

/-- `IntConstHash` of an `Int128ConstKey`, where `std::hash` of an integer is the integer. -/
def hash (key : Int128ConstKey) : UInt64 := key.val0 ^^^ key.val1 ^^^ (key.tyIdx.toUInt64 <<< 1)

/-- `IntConstCmp` of two `Int128ConstKey`s, which leaves out the types. -/
def cmp (lkey rkey : Int128ConstKey) : Bool := lkey.val0 == rkey.val0 && lkey.val1 == rkey.val1

/-- The container compares keys of one hash code. -/
def meets (lkey rkey : Int128ConstKey) : Bool := lkey.hash == rkey.hash && lkey.cmp rkey

end Int128ConstKey

/-- `IntConstTable`: the constants that have been created, and the two maps to them. -/
structure IntConstTable where
  consts : List MIRIntConst
  intConstTable : IntConstKey → Option Nat
  int128ConstTable : Int128ConstKey → Option Nat

namespace IntConstTable

/-- The assignment to `map[key]`. -/
def assign {K : Type} (same : K → K → Bool) (map : K → Option Nat) (key : K) (o : Nat) :
    K → Option Nat :=
  fun key' => if same key' key then some o else map key'

def empty : IntConstTable := ⟨[], fun _ => none, fun _ => none⟩

section Model

variable (types : UInt32 → Shape)

/-- `intConstTable[key] = new MIRIntConst(val, type)`. -/
def createIntConst (t : IntConstTable) (val : UInt64) (tyIdx : UInt32) : Nat × IntConstTable :=
  (t.consts.length, { t with
    consts := t.consts ++ [⟨ofNumber (types tyIdx) val, tyIdx⟩]
    intConstTable :=
      assign IntConstKey.cmp t.intConstTable ⟨val.toInt64, tyIdx⟩ t.consts.length })

/-- `int128ConstTable[key] = new MIRIntConst(pVal, type)`; the words must be enough for the type. -/
def createInt128Const (t : IntConstTable) (key : Int128ConstKey) : Option (Nat × IntConstTable) := do
  let value ← ofPointer (types key.tyIdx) [key.val0, key.val1]
  return (t.consts.length, { t with
    consts := t.consts ++ [⟨value, key.tyIdx⟩]
    int128ConstTable :=
      assign Int128ConstKey.meets t.int128ConstTable key t.consts.length })

/-- `DoGetOrCreateIntConst`; the variant for threads does the same in two critical sections. -/
def doGetOrCreateIntConst (t : IntConstTable) (val : UInt64) (tyIdx : UInt32) :
    Nat × IntConstTable :=
  match t.intConstTable ⟨val.toInt64, tyIdx⟩ with
  | some o => (o, t)
  | none => t.createIntConst types val tyIdx

/-- `DoGetOrCreateInt128Const`, which reads two words. -/
def doGetOrCreateInt128Const (t : IntConstTable) (pVal : List UInt64) (tyIdx : UInt32) :
    Option (Nat × IntConstTable) :=
  match pVal with
  | val0 :: val1 :: _ =>
    match t.int128ConstTable ⟨val0, val1, tyIdx⟩ with
    | some o => some (o, t)
    | none => t.createInt128Const types ⟨val0, val1, tyIdx⟩
  | _ => none

/-- A call of `GetOrCreateIntConst`, of either overload. -/
inductive Call where
  | word (val : UInt64) (tyIdx : UInt32)
  | intVal (val : IntVal) (tyIdx : UInt32)

def Call.tyIdx : Call → UInt32
  | word _ tyIdx => tyIdx
  | intVal _ tyIdx => tyIdx

def getOrCreateIntConst (t : IntConstTable) : Call → Option (Nat × IntConstTable)
  | .word val tyIdx => some (t.doGetOrCreateIntConst types val tyIdx)
  | .intVal val tyIdx =>
    if (types tyIdx).width = 128 then t.doGetOrCreateInt128Const types val.words tyIdx
    else some (t.doGetOrCreateIntConst types (val.getExtValue 0).toUInt64 tyIdx)

/-- Some calls in order, with the constants that they return. -/
def run (calls : List Call) : Option (List (Call × Nat) × IntConstTable) :=
  calls.foldlM (fun st call => do
    let r ← st.2.getOrCreateIntConst types call
    return (st.1 ++ [(call, r.1)], r.2)) ([], empty)

end Model

/-- What a constant of the table keeps. -/
def value (t : IntConstTable) (o : Nat) : Option IntVal := t.consts[o]?.map MIRIntConst.value

/-- All calls return, and two of them return the same constant if and only if their types are the
same and the values that they keep are equal. -/
def Interned (types : UInt32 → Shape) (calls : List Call) : Prop :=
  ∃ log t, run types calls = some (log, t) ∧ log.map Prod.fst = calls ∧
    ∀ x ∈ log, ∀ y ∈ log, x.2 = y.2 ↔ x.1.tyIdx = y.1.tyIdx ∧ t.value x.2 = t.value y.2

/-! ### Keys -/

/-- What a constant is found by, in one of the two maps. -/
inductive Key where
  | word (key : IntConstKey)
  | words (key : Int128ConstKey)
  deriving DecidableEq

def Key.tyIdx : Key → UInt32
  | word key => key.tyIdx
  | words key => key.tyIdx

/-- The key of a call. An `IntVal` for a type of 128 bits is read as two words, and must have them. -/
def Call.key (types : UInt32 → Shape) : Call → Option Key
  | word val tyIdx => some (.word ⟨val.toInt64, tyIdx⟩)
  | intVal val tyIdx =>
    if (types tyIdx).width = 128 then
      match val.words with
      | val0 :: val1 :: _ => some (.words ⟨val0, val1, tyIdx⟩)
      | _ => none
    else some (.word ⟨val.getExtValue 0, tyIdx⟩)

/-- The value that the constant of a key keeps. -/
def Key.stored (types : UInt32 → Shape) : Key → Option IntVal
  | word key => some (ofNumber (types key.tyIdx) key.val.toUInt64)
  | words key => ofPointer (types key.tyIdx) [key.val0, key.val1]

/-- Every call has its words, and calls with different keys for one type differ in the value that
the type keeps of them. -/
def Separated (types : UInt32 → Shape) (calls : List Call) : Prop :=
  (∀ c ∈ calls, (c.key types).isSome) ∧
    ∀ c ∈ calls, ∀ d ∈ calls, c.tyIdx = d.tyIdx →
      (c.key types).bind (Key.stored types) = (d.key types).bind (Key.stored types) →
      c.key types = d.key types

lemma cmp_iff (k k' : IntConstKey) : k.cmp k' = true ↔ k = k' := by
  obtain ⟨v, ty⟩ := k
  obtain ⟨v', ty'⟩ := k'
  simp [IntConstKey.cmp]

lemma meets_iff (k k' : Int128ConstKey) : k.meets k' = true ↔ k = k' := by
  obtain ⟨v0, v1, ty⟩ := k
  obtain ⟨v0', v1', ty'⟩ := k'
  simp only [Int128ConstKey.meets, Int128ConstKey.cmp, Int128ConstKey.hash, Bool.and_eq_true,
    beq_iff_eq, Int128ConstKey.mk.injEq]
  constructor
  · rintro ⟨hhash, rfl, rfl⟩
    have hshift := (UInt64.xor_right_inj _).mp hhash
    have hnat := congrArg UInt64.toNat hshift
    have hlt := ty.toNat_lt
    have hlt' := ty'.toNat_lt
    rw [UInt64.toNat_shiftLeft, UInt64.toNat_shiftLeft, UInt32.toNat_toUInt64,
      UInt32.toNat_toUInt64, Nat.shiftLeft_eq, Nat.shiftLeft_eq] at hnat
    change ty.toNat * 2 ^ 1 % 2 ^ 64 = ty'.toNat * 2 ^ 1 % 2 ^ 64 at hnat
    exact ⟨rfl, rfl, UInt32.toNat_inj.mp (by omega)⟩
  · rintro ⟨rfl, rfl, rfl⟩
    exact ⟨rfl, rfl, rfl⟩

lemma assign_eq {K : Type} [DecidableEq K] {same : K → K → Bool}
    (hsame : ∀ k k', same k k' = true ↔ k = k') (map : K → Option Nat) (key key' : K) (o : Nat) :
    assign same map key o key' = if key' = key then some o else map key' := by
  simp [assign, hsame]

/-- The constant of a key. -/
def find (t : IntConstTable) : Key → Option Nat
  | .word key => t.intConstTable key
  | .words key => t.int128ConstTable key

/-- The creation of the constant of a key. -/
def create (types : UInt32 → Shape) (t : IntConstTable) : Key → Option (Nat × IntConstTable)
  | .word key => some (t.createIntConst types key.val.toUInt64 key.tyIdx)
  | .words key => t.createInt128Const types key

section Keys

variable {types : UInt32 → Shape} {t t' : IntConstTable} {k : Key} {o : Nat}

lemma create_eq_some (h : t.create types k = some (o, t')) : o = t.consts.length ∧
    (∃ v, k.stored types = some v ∧ t'.consts = t.consts ++ [⟨v, k.tyIdx⟩]) ∧
    ∀ k', t'.find k' = if k' = k then some o else t.find k' := by
  cases k with
  | word key =>
    simp only [create, createIntConst, Option.some.injEq, Prod.mk.injEq] at h
    obtain ⟨rfl, rfl⟩ := h
    refine ⟨rfl, ⟨_, rfl, rfl⟩, ?_⟩
    intro k'
    cases k' with
    | word key' => simp [find, assign_eq cmp_iff]
    | words key' => simp [find]
  | words key =>
    simp only [create, createInt128Const, Option.bind_eq_bind, Option.bind_eq_some_iff,
      Option.pure_def, Option.some.injEq, Prod.mk.injEq] at h
    obtain ⟨v, hv, rfl, rfl⟩ := h
    refine ⟨rfl, ⟨v, hv, rfl⟩, ?_⟩
    intro k'
    cases k' with
    | word key' => simp [find]
    | words key' => simp [find, assign_eq meets_iff]

lemma getOrCreateIntConst_eq (t : IntConstTable) (c : Call) :
    t.getOrCreateIntConst types c = (c.key types).bind fun k =>
      match t.find k with
      | some o => some (o, t)
      | none => t.create types k := by
  cases c with
  | word val tyIdx =>
    simp only [getOrCreateIntConst, doGetOrCreateIntConst, Call.key, Option.bind_some, find, create]
    cases t.intConstTable ⟨val.toInt64, tyIdx⟩ with
    | some o => rfl
    | none => simp
  | intVal val tyIdx =>
    simp only [getOrCreateIntConst, Call.key]
    split_ifs with hwidth
    · rcases val.words with _ | ⟨v0, _ | ⟨v1, vs⟩⟩
      · rfl
      · rfl
      · rfl
    · simp only [doGetOrCreateIntConst, Option.bind_some, find, create]
      rw [Int64.toInt64_toUInt64]
      cases t.intConstTable ⟨val.getExtValue 0, tyIdx⟩ with
      | some o => rfl
      | none => rfl

/-! ### Runs -/

/-- What holds after some calls: the constant of a key keeps its value and its type, different keys
have different constants, and a call has returned the constant of its key. -/
structure Inv (types : UInt32 → Shape) (log : List (Call × Nat)) (t : IntConstTable) : Prop where
  found : ∀ k o, t.find k = some o → ∃ v, k.stored types = some v ∧
    t.consts[o]? = some ⟨v, k.tyIdx⟩
  inj : ∀ k k' o, t.find k = some o → t.find k' = some o → k = k'
  log : ∀ x ∈ log, ∃ k, x.1.key types = some k ∧ t.find k = some x.2

lemma inv_empty : Inv types [] empty where
  found k o h := by cases k <;> simp [find, empty] at h
  inj k k' o h := by cases k <;> simp [find, empty] at h
  log x hx := by simp at hx

lemma Call.tyIdx_key {c : Call} (h : c.key types = some k) : k.tyIdx = c.tyIdx := by
  cases c with
  | word val tyIdx =>
    simp only [Call.key, Option.some.injEq] at h
    subst h
    rfl
  | intVal val tyIdx =>
    rw [Call.key] at h
    split_ifs at h
    · split at h
      · simp only [Option.some.injEq] at h
        subst h
        rfl
      · simp at h
    · simp only [Option.some.injEq] at h
      subst h
      rfl

lemma Call.stored_key {c : Call} (h : c.key types = some k) : ∃ v, k.stored types = some v := by
  cases c with
  | word val tyIdx =>
    simp only [Call.key, Option.some.injEq] at h
    subst h
    exact ⟨_, rfl⟩
  | intVal val tyIdx =>
    rw [Call.key] at h
    split_ifs at h with hwidth
    · split at h
      · simp only [Option.some.injEq] at h
        subst h
        have hnum : (types tyIdx).numWords ≤ 2 := by
          rw [Shape.numWords, hwidth]
          decide
        exact ⟨_, dif_pos hnum⟩
      · simp at h
    · simp only [Option.some.injEq] at h
      subst h
      exact ⟨_, rfl⟩

lemma Inv.getOrCreate {log : List (Call × Nat)} (h : Inv types log t) {c : Call}
    (hkey : c.key types = some k) :
    ∃ o t', t.getOrCreateIntConst types c = some (o, t') ∧ Inv types (log ++ [(c, o)]) t' := by
  rw [getOrCreateIntConst_eq, hkey, Option.bind_some]
  cases hfind : t.find k with
  | some o =>
    refine ⟨o, t, rfl, h.found, h.inj, ?_⟩
    intro x hx
    rcases List.mem_append.mp hx with hx | hx
    · exact h.log x hx
    · rw [List.mem_singleton.mp hx]
      exact ⟨k, hkey, hfind⟩
  | none =>
    obtain ⟨v, hv⟩ := Call.stored_key hkey
    obtain ⟨⟨o, t'⟩, hcreate⟩ : ∃ r, t.create types k = some r := by
      cases k with
      | word key => exact ⟨_, rfl⟩
      | words key =>
        have hptr : ofPointer (types key.tyIdx) [key.val0, key.val1] = some v := hv
        simp [create, createInt128Const, hptr]
    obtain ⟨rfl, ⟨v', hv', hconsts⟩, hfind'⟩ := create_eq_some hcreate
    obtain rfl : v = v' := Option.some.inj (hv.symm.trans hv')
    have hbound : ∀ k' o, t.find k' = some o → o < t.consts.length := by
      intro k' o hk'
      obtain ⟨v', -, hget⟩ := h.found k' o hk'
      exact (List.getElem?_eq_some_iff.mp hget).1
    refine ⟨_, t', hcreate, ?_, ?_, ?_⟩
    · intro k' o hk'
      rw [hfind'] at hk'
      split_ifs at hk' with heq
      · obtain rfl := Option.some.inj hk'
        subst heq
        exact ⟨v, hv, by simp [hconsts]⟩
      · obtain ⟨v', hv', hget⟩ := h.found k' o hk'
        refine ⟨v', hv', ?_⟩
        rw [hconsts, List.getElem?_append_left (hbound k' o hk')]
        exact hget
    · intro k₁ k₂ o h₁ h₂
      rw [hfind'] at h₁ h₂
      split_ifs at h₁ h₂ with heq₁ heq₂ heq₂
      · rw [heq₁, heq₂]
      · have := hbound k₂ o h₂
        have := Option.some.inj h₁
        omega
      · have := hbound k₁ o h₁
        have := Option.some.inj h₂
        omega
      · exact h.inj k₁ k₂ o h₁ h₂
    · intro x hx
      rcases List.mem_append.mp hx with hx | hx
      · obtain ⟨k', hk', hfound⟩ := h.log x hx
        refine ⟨k', hk', ?_⟩
        rw [hfind', if_neg, hfound]
        rintro rfl
        simp [hfind] at hfound
      · rw [List.mem_singleton.mp hx]
        exact ⟨k, hkey, by rw [hfind', if_pos rfl]⟩

lemma run_append_singleton (calls : List Call) (c : Call) :
    run types (calls ++ [c]) = (run types calls).bind fun st =>
      (st.2.getOrCreateIntConst types c).map fun r => (st.1 ++ [(c, r.1)], r.2) := by
  rw [run, List.foldlM_append, run]
  congr 1
  funext st
  simp only [List.foldlM_cons, List.foldlM_nil, Option.bind_eq_bind, Option.pure_def]
  cases st.2.getOrCreateIntConst types c with
  | none => rfl
  | some r => rfl

lemma run_eq_some (calls : List Call) (hkeys : ∀ c ∈ calls, (c.key types).isSome) :
    ∃ log t, run types calls = some (log, t) ∧ log.map Prod.fst = calls ∧ Inv types log t := by
  induction calls using List.reverseRecOn with
  | nil => exact ⟨[], empty, rfl, rfl, inv_empty⟩
  | append_singleton calls c ih =>
    obtain ⟨log, t, hrun, hlog, hinv⟩ := ih fun c hc => hkeys c (List.mem_append_left _ hc)
    obtain ⟨k, hkey⟩ := Option.isSome_iff_exists.mp
      (hkeys c (List.mem_append_right _ (List.mem_singleton_self c)))
    obtain ⟨o, t', hcall, hinv'⟩ := hinv.getOrCreate hkey
    refine ⟨log ++ [(c, o)], t', ?_, ?_, hinv'⟩
    · rw [run_append_singleton, hrun, Option.bind_some, hcall]
      rfl
    · rw [List.map_append, hlog]
      rfl

lemma isSome_key_of_run (calls : List Call) {st : List (Call × Nat) × IntConstTable}
    (hrun : run types calls = some st) : ∀ c ∈ calls, (c.key types).isSome := by
  induction calls using List.reverseRecOn generalizing st with
  | nil => simp
  | append_singleton calls c ih =>
    rw [run_append_singleton, Option.bind_eq_some_iff] at hrun
    obtain ⟨st₁, hrun₁, hcall⟩ := hrun
    rw [getOrCreateIntConst_eq] at hcall
    intro d hd
    rcases List.mem_append.mp hd with hd | hd
    · exact ih hrun₁ d hd
    · rw [List.mem_singleton.mp hd]
      cases hkey : c.key types with
      | none => simp [hkey] at hcall
      | some k => rfl

lemma Inv.eq_iff {log : List (Call × Nat)} (h : Inv types log t) {x y : Call × Nat} (hx : x ∈ log)
    (hy : y ∈ log) : x.2 = y.2 ↔ x.1.key types = y.1.key types := by
  obtain ⟨k, hk, hfound⟩ := h.log x hx
  obtain ⟨k', hk', hfound'⟩ := h.log y hy
  rw [hk, hk', Option.some.injEq]
  constructor
  · intro heq
    rw [heq] at hfound
    exact h.inj k k' _ hfound hfound'
  · rintro rfl
    exact Option.some.inj (hfound.symm.trans hfound')

lemma Inv.value_eq {log : List (Call × Nat)} (h : Inv types log t) {x : Call × Nat} (hx : x ∈ log) :
    t.value x.2 = (x.1.key types).bind (Key.stored types) := by
  obtain ⟨k, hk, hfound⟩ := h.log x hx
  obtain ⟨v, hv, hget⟩ := h.found k _ hfound
  rw [hk, Option.bind_some, hv, IntConstTable.value, hget]
  rfl

lemma interned_of_separated (calls : List Call) (h : Separated types calls) :
    Interned types calls := by
  obtain ⟨hkeys, hsep⟩ := h
  obtain ⟨log, t, hrun, hlog, hinv⟩ := run_eq_some calls hkeys
  refine ⟨log, t, hrun, hlog, ?_⟩
  intro x hx y hy
  have hxc : x.1 ∈ calls := hlog ▸ List.mem_map_of_mem hx
  have hyc : y.1 ∈ calls := hlog ▸ List.mem_map_of_mem hy
  rw [hinv.eq_iff hx hy, hinv.value_eq hx, hinv.value_eq hy]
  constructor
  · intro hkey
    obtain ⟨k, hk⟩ := Option.isSome_iff_exists.mp (hkeys x.1 hxc)
    refine ⟨?_, by rw [hkey]⟩
    rw [← Call.tyIdx_key hk, ← Call.tyIdx_key (hkey ▸ hk)]
  · rintro ⟨hty, hval⟩
    exact hsep x.1 hxc y.1 hyc hty hval

lemma separated_of_interned (calls : List Call) (h : Interned types calls) :
    Separated types calls := by
  obtain ⟨log, t, hrun, hlog, hsame⟩ := h
  have hkeys := isSome_key_of_run calls hrun
  refine ⟨hkeys, ?_⟩
  obtain ⟨log', t', hrun', -, hinv⟩ := run_eq_some calls hkeys
  obtain ⟨rfl, rfl⟩ := Prod.mk.inj (Option.some.inj (hrun.symm.trans hrun'))
  intro c hc d hd hty hval
  rw [← hlog] at hc hd
  obtain ⟨x, hx, rfl⟩ := List.mem_map.mp hc
  obtain ⟨y, hy, rfl⟩ := List.mem_map.mp hd
  rw [← hinv.eq_iff hx hy]
  refine (hsame x hx y hy).mpr ⟨hty, ?_⟩
  rw [hinv.value_eq hx, hinv.value_eq hy, hval]

end Keys

/-- Integer constants are interned if and only if no calls of one type have different keys and the
same value. -/
theorem interned_iff (types : UInt32 → Shape) (calls : List Call) :
    Interned types calls ↔ Separated types calls :=
  ⟨separated_of_interned calls, interned_of_separated calls⟩

/-- The `i32` constants of `0xffffffff` and `-1`. -/
theorem not_interned_minus_one : ¬ Interned (fun _ => ⟨32, true, by decide, by decide⟩)
    [.word 0xffffffff 5, .word 0xffffffffffffffff 5] := by
  intro h
  have hkey := (separated_of_interned _ h).2 (.word 0xffffffff 5) (by simp)
    (.word 0xffffffffffffffff 5) (by simp) rfl rfl
  revert hkey
  decide

end IntConstTable
end Maple

/-! ### Callers of the tables in several threads

`GetOrCreateMIRTypeNode` and `DoGetOrCreateIntConstTreadSafe` look an entry up in one critical
section and create it in a second one, which does not look again.
-/

namespace Maple

open LookupCreate

namespace IntConstTable

/-- `DoGetOrCreateIntConstTreadSafe` and `DoGetOrCreateInt128ConstTreadSafe`, which share a lock. A
key has what they are called with. -/
def getOrCreateTreadSafe (types : UInt32 → IntVal.Shape) :
    LookupCreate.Table IntConstTable Key Key Nat where
  key k := k
  find := find
  create := create types
  entries t k := if (t.find k).isSome then 1 else 0

/-- The maps point to constants of the table. -/
def Ok (t : IntConstTable) : Prop := ∀ k o, t.find k = some o → o < t.consts.length

lemma lawful (types : UInt32 → IntVal.Shape) : (getOrCreateTreadSafe types).Lawful Ok where
  ok_create {t k o t'} hok hcreate := by
    obtain ⟨rfl, ⟨v, -, hconsts⟩, hfind⟩ := create_eq_some hcreate
    intro k' o hk'
    rw [hconsts, List.length_append, List.length_singleton]
    rw [hfind] at hk'
    split_ifs at hk'
    · have := Option.some.inj hk'
      omega
    · have := hok k' o hk'
      omega
  find_create hok hcreate hnone := by
    obtain ⟨rfl, -, hfind⟩ := create_eq_some hcreate
    exact (hfind _).trans (if_pos rfl)
  find_create_of_ne hok hcreate hne := by
    obtain ⟨rfl, -, hfind⟩ := create_eq_some hcreate
    exact (hfind _).trans (if_neg hne)
  ne_of_find hok hcreate hfound := by
    obtain ⟨rfl, -⟩ := create_eq_some hcreate
    exact (hok _ _ hfound).ne'
  entries_create hok hcreate hnone := by
    obtain ⟨rfl, -, hfind⟩ := create_eq_some hcreate
    simp [getOrCreateTreadSafe, hfind]
  entries_create_of_ne {t k k' o t'} hok hcreate hne := by
    obtain ⟨rfl, -, hfind⟩ := create_eq_some hcreate
    have hne : k' ≠ k := hne
    simp [getOrCreateTreadSafe, hfind, hne]

end IntConstTable

section

variable {α σ ι : Type} [Inhabited α] [DecidableEq α] [DecidableEq σ] [DecidableEq ι]

/-- The calls of a key return its one entry, which stays, if and only if no call creates an entry
for a key that another call has created one for since the lookup. -/
theorem globalTables_staysConsistent_iff {kPtyDerived : Nat} {typeOf : ι → TypeTable.MIRType α σ}
    {types₀ : LookupCreate.State (TypeTable α σ) Nat ι} {typeSteps : List ι}
    (htypes : Initial (TypeTable.getOrCreateMIRTypeNode kPtyDerived) TypeTable.Ok types₀)
    (htypesRun : (run (TypeTable.getOrCreateMIRTypeNode kPtyDerived) typeOf types₀ typeSteps).isSome)
    {types : UInt32 → IntVal.Shape} {keyOf : ι → IntConstTable.Key}
    {consts₀ : LookupCreate.State IntConstTable Nat ι} {constSteps : List ι}
    (hconsts : Initial (IntConstTable.getOrCreateTreadSafe types) IntConstTable.Ok consts₀)
    (hconstsRun :
      (run (IntConstTable.getOrCreateTreadSafe types) keyOf consts₀ constSteps).isSome) :
    (StaysConsistent (TypeTable.getOrCreateMIRTypeNode kPtyDerived) typeOf types₀ typeSteps ↔
      NeverClashes (TypeTable.getOrCreateMIRTypeNode kPtyDerived) typeOf types₀ typeSteps) ∧
    (StaysConsistent (IntConstTable.getOrCreateTreadSafe types) keyOf consts₀ constSteps ↔
      NeverClashes (IntConstTable.getOrCreateTreadSafe types) keyOf consts₀ constSteps) := by
  constructor
  · exact staysConsistent_iff_neverClashes (TypeTable.lawful kPtyDerived) htypes htypesRun
  · exact staysConsistent_iff_neverClashes (IntConstTable.lawful types) hconsts hconstsRun

end

/-! ### Two callers -/

def noTypes : LookupCreate.State (TypeTable Unit Unit) Nat Bool :=
  ⟨⟨[], fun _ => none, fun _ => none, fun _ => none⟩, fun _ => .pending⟩

def noConsts : LookupCreate.State IntConstTable Nat Bool :=
  ⟨IntConstTable.empty, fun _ => .pending⟩

lemma initial_noTypes :
    Initial (TypeTable.getOrCreateMIRTypeNode 40) TypeTable.Ok noTypes where
  ok := by
    refine ⟨?_, fun k _ => rfl⟩
    intro k i h
    cases k <;> simp [noTypes, TypeTable.find] at h
  pending _ := rfl
  entries k o h := by
    cases k <;> simp [noTypes, TypeTable.find, TypeTable.getOrCreateMIRTypeNode] at h

lemma initial_noConsts (types : UInt32 → IntVal.Shape) :
    Initial (IntConstTable.getOrCreateTreadSafe types) IntConstTable.Ok noConsts where
  ok k o h := by cases k <;> simp [noConsts, IntConstTable.empty, IntConstTable.find] at h
  pending _ := rfl
  entries k o h := by
    cases k <;>
      simp [noConsts, IntConstTable.empty, IntConstTable.find, IntConstTable.getOrCreateTreadSafe] at h

/-- The two callers one after the other. -/
theorem globalTables_staysConsistent_iff_inOrder :
    let ptrTo : Bool → TypeTable.MIRType Unit Unit := fun _ => .ptr 50 .ptr ()
    let five : Bool → IntConstTable.Key := fun _ => .word ⟨5, 4⟩
    let shapes : UInt32 → IntVal.Shape := fun _ => ⟨32, true, by decide, by decide⟩
    (StaysConsistent (TypeTable.getOrCreateMIRTypeNode 40) ptrTo noTypes [true, true, false] ↔
      NeverClashes (TypeTable.getOrCreateMIRTypeNode 40) ptrTo noTypes [true, true, false]) ∧
    (StaysConsistent (IntConstTable.getOrCreateTreadSafe shapes) five noConsts [true, true, false] ↔
      NeverClashes (IntConstTable.getOrCreateTreadSafe shapes) five noConsts [true, true, false]) :=
  globalTables_staysConsistent_iff initial_noTypes rfl (initial_noConsts _) rfl

/-- Both callers look before one of them creates. -/
theorem not_globalTables_staysConsistent_bothMiss :
    ¬ StaysConsistent (TypeTable.getOrCreateMIRTypeNode 40)
      (fun _ => TypeTable.MIRType.ptr 50 .ptr () : Bool → TypeTable.MIRType Unit Unit) noTypes
      [true, false, true, false] ∧
    ¬ StaysConsistent (IntConstTable.getOrCreateTreadSafe
      fun _ => ⟨32, true, by decide, by decide⟩) (fun _ => .word ⟨5, 4⟩) noConsts
      [true, false, true, false] := by
  constructor
  · intro h
    have hsame := (h _ (List.prefix_refl _) _ rfl).same true false 0 1 rfl rfl rfl
    simp at hsame
  · intro h
    have hsame := (h _ (List.prefix_refl _) _ rfl).same true false 0 1 rfl rfl rfl
    simp at hsame

end Maple
