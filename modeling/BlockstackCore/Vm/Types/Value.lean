import BlockstackCore.Vm.Types.Signatures

/-!
# Clarity values

`Value` (`vm/types/mod.rs`) and the checked constructors that build it:
`Value::some`, `okay`, `error`, `list_with_type`, `list_from`, `buff_from`,
`TupleData::from_data` and `from_data_typed`. `i128` and `u128` are
`BitVec 128`. A list carries the `ListTypeData` it was built with and a tuple
its `TupleTypeSignature`, as `ListData` and `TupleData` do.

`type_of` panics through two `expect`s (a buffer longer than
`MAX_VALUE_SIZE`, an optional or response type too large or deep to
construct), so it returns an `Option` whose `none` is that panic, and so do
`size`, `depth` and `admits`.

`wellFormed` is what the constructors guarantee of a value, recursively: a
list within its maximum length with every item admitted by its entry type, a
tuple whose entries are exactly its type's fields, each admitted.
-/

namespace BlockstackCore

open Outcome

inductive Value where
  | int (v : BitVec 128)
  | uInt (v : BitVec 128)
  | bool (b : Bool)
  | buffer (data : List UInt8)
  | list (data : List Value) (typeSignature : ListTypeData)
  | principal (p : PrincipalData)
  | tuple (typeSignature : TupleTypeSignature) (dataMap : List (ClarityName × Value))
  | optional (data : Option Value)
  | response (committed : Bool) (data : Value)
  deriving Repr

inductive InterpreterError where
  | failureConstructingListWithType
  | failureConstructingTupleWithType
  | failedToConstructAssetTable
  | failedToConstructEventBatch
  | badSymbolicRepresentation (msg : String)
  | interpreterError (msg : String)
  deriving DecidableEq, Repr

inductive RuntimeErrorType where
  | arithmeticOverflow
  | badTypeConstruction
  | supplyOverflow (newSupply totalSupply : Nat)
  | maxStackDepthReached
  | noSenderInContext
  | notImplemented
  deriving DecidableEq, Repr

namespace Value

mutual
/-- Structural equality. (Clarity's own `==` ignores the type signatures that
lists and tuples carry.) -/
def beq : Value → Value → Bool
  | .int a, .int b | .uInt a, .uInt b => a == b
  | .bool a, .bool b => a == b
  | .buffer a, .buffer b => a == b
  | .list d t, .list d' t' => beqList d d' && t == t'
  | .principal p, .principal p' => p == p'
  | .tuple t m, .tuple t' m' => t == t' && beqMap m m'
  | .optional none, .optional none => true
  | .optional (some v), .optional (some v') => v.beq v'
  | .response c v, .response c' v' => c == c' && v.beq v'
  | _, _ => false
def beqList : List Value → List Value → Bool
  | [], [] => true
  | v :: vs, v' :: vs' => v.beq v' && beqList vs vs'
  | _, _ => false
def beqMap : List (ClarityName × Value) → List (ClarityName × Value) → Bool
  | [], [] => true
  | (k, v) :: m, (k', v') :: m' => k == k' && v.beq v' && beqMap m m'
  | _, _ => false
end

mutual
theorem eq_of_beq : (a b : Value) → a.beq b = true → a = b
  | .int x, b, h | .uInt x, b, h | .bool x, b, h | .buffer x, b, h | .principal x, b, h => by
    cases b <;> simp_all [beq]
  | .list d t, b, h => by
    cases b <;> simp only [beq, Bool.and_eq_true, beq_iff_eq, Bool.false_eq_true] at h
    case list d' t' => rw [eq_of_beqList d d' h.1, h.2]
  | .tuple t m, b, h => by
    cases b <;> simp only [beq, Bool.and_eq_true, beq_iff_eq, Bool.false_eq_true] at h
    case tuple t' m' => rw [h.1, eq_of_beqMap m m' h.2]
  | .optional none, b, h => by
    cases b with
    | optional o => cases o <;> simp_all [beq]
    | _ => simp [beq] at h
  | .optional (some v), b, h => by
    cases b with
    | optional o =>
      cases o with
      | none => simp [beq] at h
      | some v' => rw [eq_of_beq v v' h]
    | _ => simp [beq] at h
  | .response c v, b, h => by
    cases b <;> simp only [beq, Bool.and_eq_true, beq_iff_eq, Bool.false_eq_true] at h
    case response c' v' => rw [h.1, eq_of_beq v v' h.2]
theorem eq_of_beqList : (a b : List Value) → beqList a b = true → a = b
  | [], b, h => by cases b <;> simp_all [beqList]
  | v :: vs, b, h => by
    match b with
    | [] => simp [beqList] at h
    | v' :: vs' =>
      simp only [beqList, Bool.and_eq_true] at h
      rw [eq_of_beq v v' h.1, eq_of_beqList vs vs' h.2]
theorem eq_of_beqMap : (a b : List (ClarityName × Value)) → beqMap a b = true → a = b
  | [], b, h => by cases b <;> simp_all [beqMap]
  | (k, v) :: m, b, h => by
    match b with
    | [] => simp [beqMap] at h
    | (k', v') :: m' =>
      simp only [beqMap, Bool.and_eq_true, beq_iff_eq] at h
      rw [h.1.1, eq_of_beq v v' h.1.2, eq_of_beqMap m m' h.2]
end

mutual
theorem beq_refl : (a : Value) → a.beq a = true
  | .int x | .uInt x | .bool x | .buffer x | .principal x => by simp [beq]
  | .list d t => by simp [beq, beqList_refl d]
  | .tuple t m => by simp [beq, beqMap_refl m]
  | .optional none => rfl
  | .optional (some v) => by simp [beq, beq_refl v]
  | .response c v => by simp [beq, beq_refl v]
theorem beqList_refl : (a : List Value) → beqList a a = true
  | [] => rfl
  | v :: vs => by simp [beqList, beq_refl v, beqList_refl vs]
theorem beqMap_refl : (a : List (ClarityName × Value)) → beqMap a a = true
  | [] => rfl
  | (k, v) :: m => by simp [beqMap, beq_refl v, beqMap_refl m]
end

instance : BEq Value := ⟨beq⟩

instance : LawfulBEq Value where
  eq_of_beq h := eq_of_beq _ _ h
  rfl := beq_refl _

instance : DecidableEq Value := fun _ _ => decidable_of_iff _ beq_iff_eq

end Value

/-- The early returns of `asserts!`, `unwrap!` and the like, which
`DefinedFunction::execute_apply` turns back into values. -/
inductive ShortReturnType where
  | expectedValue (v : Value)
  | assertionFailed (v : Value)
  deriving DecidableEq, Repr

/-- `vm::errors::Error`, with the variants the modelled functions raise. -/
inductive ClarityError where
  | unchecked (e : CheckErrors)
  | interpreter (e : InterpreterError)
  | runtime (e : RuntimeErrorType)
  /-- `Unchecked(TypeValueError(..))`, the check error that carries a value. -/
  | typeValueError (t : TypeSignature) (v : Value)
  | shortReturn (t : ShortReturnType)
  deriving DecidableEq, Repr

namespace Value

/-- `type_of`; `none` is the panic of one of its `expect`s. -/
def typeOf : Value → Option TypeSignature
  | .principal _ => some .principalType
  | .int _ => some .intType
  | .uInt _ => some .uIntType
  | .bool _ => some .boolType
  | .buffer data =>
    match BufferLength.tryFrom data.length with
    | .ok buffLength => some (.bufferType buffLength)
    | .error _ => none
  | .tuple t _ => some (.tupleType t.typeMap)
  | .list _ t => some (.listType t.maxLen t.entryType)
  -- `OptionalData::type_signature`
  | .optional none => (TypeSignature.newOption .noType).toOption
  | .optional (some v) => do (TypeSignature.newOption (← v.typeOf)).toOption
  -- `ResponseData::type_signature`
  | .response true data => do (TypeSignature.newResponse (← data.typeOf) .noType).toOption
  | .response false data => do (TypeSignature.newResponse .noType (← data.typeOf)).toOption

def size (v : Value) : Option Nat := do ((← v.typeOf).size : Outcome Unit Nat).toOption

def depth (v : Value) : Option Nat := v.typeOf.map TypeSignature.depth

/-- The check shared by `some`, `okay` and `error`. -/
def checkWrapped (data : Value) (wrapped : Value) : Outcome ClarityError Value := do
  if (← expect data.size) + WRAPPER_VALUE_SIZE > MAX_VALUE_SIZE then err (.unchecked .valueTooLarge)
  else if (← expect data.depth) + 1 > MAX_TYPE_DEPTH then err (.unchecked .typeSignatureTooDeep)
  else ok wrapped

def some (data : Value) : Outcome ClarityError Value := checkWrapped data (.optional (.some data))

def none : Value := .optional .none

def okay (data : Value) : Outcome ClarityError Value := checkWrapped data (.response true data)

def error (data : Value) : Outcome ClarityError Value := checkWrapped data (.response false data)

end Value

namespace TypeSignature

/-- `admits`: `admits_type` against the value's `type_of`. -/
def admits (t : TypeSignature) (x : Value) : Option Bool := do t.admitsType (← x.typeOf)

/-- The admission loop of `list_with_type`, up to the first item refused. -/
def admitsAll (t : TypeSignature) : List Value → Option Bool
  | [] => some true
  | item :: items => do if ← t.admits item then t.admitsAll items else pure false

end TypeSignature

namespace Value

def listWithType (listData : List Value) (expectedType : ListTypeData) :
    Outcome ClarityError Value := do
  if expectedType.maxLen < listData.length then
    err (.interpreter .failureConstructingListWithType)
  else if !(← expect (expectedType.entryType.admitsAll listData)) then
    err (.interpreter .failureConstructingListWithType)
  else ok (.list listData expectedType)

def listFrom (listData : List Value) : Outcome ClarityError Value := do
  let childrenTypes ← expect (listData.mapM typeOf)
  let typeSig ← (TypeSignature.parentListType childrenTypes).mapErr .unchecked
  ok (.list listData typeSig)

def buffFrom (buffData : List UInt8) : Outcome ClarityError Value := do
  let _ ← (ofExcept (BufferLength.tryFrom buffData.length)).mapErr .unchecked
  ok (.buffer buffData)

end Value

structure TupleData where
  typeSignature : TupleTypeSignature
  dataMap : List (ClarityName × Value)

namespace TupleData

def toValue (t : TupleData) : Value := .tuple t.typeSignature t.dataMap

/-- The loop of `from_data`: refuse a name seen before, and record each
value's type. -/
def collect (typeMap : List (ClarityName × TypeSignature)) (dataMap : List (ClarityName × Value)) :
    List (ClarityName × Value) →
      Outcome ClarityError (List (ClarityName × TypeSignature) × List (ClarityName × Value))
  | [] => ok (typeMap, dataMap)
  | (name, value) :: data => do
    let typeInfo ← expect value.typeOf
    if BTreeMap.containsKey name typeMap then err (.unchecked (.nameAlreadyUsed name))
    else collect (BTreeMap.insert name typeInfo typeMap) (BTreeMap.insert name value dataMap) data

def fromData (data : List (ClarityName × Value)) : Outcome ClarityError TupleData := do
  let (typeMap, dataMap) ← collect [] [] data
  let typeSignature ← (TupleTypeSignature.tryFrom typeMap).mapErr .unchecked
  ok ⟨typeSignature, dataMap⟩

/-- The loop of `from_data_typed`: each value must be admitted by its field's
type; the value is then inserted, over any earlier one of the same name. -/
def collectTyped (expected : TupleTypeSignature) (dataMap : List (ClarityName × Value)) :
    List (ClarityName × Value) → Outcome ClarityError (List (ClarityName × Value))
  | [] => ok dataMap
  | (name, value) :: data => do
    let expectedType ←
      ofOption (.interpreter .failureConstructingTupleWithType) (expected.fieldType name)
    if !(← expect (expectedType.admits value)) then
      err (.interpreter .failureConstructingTupleWithType)
    else collectTyped expected (BTreeMap.insert name value dataMap) data

def fromDataTyped (data : List (ClarityName × Value)) (expected : TupleTypeSignature) :
    Outcome ClarityError TupleData := do
  ok ⟨expected, ← collectTyped expected [] data⟩

end TupleData

namespace Value

mutual
/-- What the constructors guarantee of a value, at every level. -/
def wellFormed : Value → Bool
  | .list data t =>
    decide (data.length ≤ t.maxLen) && t.entryType.admitsAll data == .some true &&
      wellFormedList data
  | .tuple t m =>
    m.map Prod.fst == t.typeMap.map Prod.fst && wellFormedMap t m
  | .optional (.some v) => v.wellFormed
  | .response _ v => v.wellFormed
  | _ => true
def wellFormedList : List Value → Bool
  | [] => true
  | v :: vs => v.wellFormed && wellFormedList vs
/-- Each entry admitted by its field's type, and well formed. -/
def wellFormedMap (t : TupleTypeSignature) : List (ClarityName × Value) → Bool
  | [] => true
  | (name, v) :: m =>
    ((t.fieldType name).bind fun ft => ft.admits v) == .some true && v.wellFormed &&
      wellFormedMap t m
end

mutual
/-- How many levels of values a value has: an atom is one. -/
def nesting : Value → Nat
  | .list data _ => 1 + nestingList data
  | .tuple _ dataMap => 1 + nestingMap dataMap
  | .optional (.some v) => 1 + v.nesting
  | .response _ v => 1 + v.nesting
  | _ => 1
def nestingList : List Value → Nat
  | [] => 0
  | v :: vs => max v.nesting (nestingList vs)
def nestingMap : List (ClarityName × Value) → Nat
  | [] => 0
  | (_, v) :: m => max v.nesting (nestingMap m)
end

theorem nestingList_le {k : Nat} : ∀ {vs : List Value}, (∀ v ∈ vs, v.nesting ≤ k) →
    nestingList vs ≤ k
  | [], _ => Nat.zero_le _
  | v :: vs, h => by
    simp only [nestingList]
    exact max_le (h v List.mem_cons_self) (nestingList_le fun w hw => h w (List.mem_cons_of_mem v hw))

theorem nestingMap_le {k : Nat} : ∀ {m : List (ClarityName × Value)}, (∀ p ∈ m, p.2.nesting ≤ k) →
    nestingMap m ≤ k
  | [], _ => Nat.zero_le _
  | (n, v) :: m, h => by
    simp only [nestingMap]
    exact max_le (h (n, v) List.mem_cons_self) (nestingMap_le fun p hp => h p (List.mem_cons_of_mem _ hp))

theorem checkWrapped_ok {data wrapped v : Value} (h : checkWrapped data wrapped = ok v) :
    v = wrapped := by
  unfold checkWrapped at h
  cases hs : data.size with
  | none => simp [hs] at h
  | some s =>
    by_cases h1 : s + WRAPPER_VALUE_SIZE > MAX_VALUE_SIZE
    · simp [hs, h1] at h
    · cases hd : data.depth with
      | none => simp [hs, hd, h1] at h
      | some d =>
        by_cases h2 : d + 1 > MAX_TYPE_DEPTH
        · simp only [hs, hd, h1, h2, expect_some, ok_bind, if_false, if_true, reduceCtorEq] at h
        · simp only [hs, hd, h1, h2, expect_some, ok_bind, if_false, ok.injEq] at h
          exact h.symm

theorem listWithType_ok {items : List Value} {t : ListTypeData} {v : Value}
    (h : listWithType items t = ok v) : v = .list items t := by
  unfold listWithType at h
  split_ifs at h
  cases ha : t.entryType.admitsAll items with
  | none => simp [ha] at h
  | some a =>
    cases a <;> simp only [ha, expect_some, ok_bind, Bool.not_false, Bool.not_true,
      if_true, if_false, Bool.false_eq_true, reduceCtorEq] at h
    cases h
    rfl

theorem listFrom_ok {items : List Value} {v : Value} (h : listFrom items = ok v) :
    ∃ t, v = .list items t := by
  unfold listFrom at h
  cases hc : items.mapM typeOf with
  | none => simp [hc] at h
  | some ts =>
    simp only [hc, expect_some, ok_bind] at h
    cases hp : TypeSignature.parentListType ts <;> simp [hp, mapErr] at h
    exact ⟨_, h.symm⟩

end Value

namespace TupleData

theorem collect_mem {typeMap : List (ClarityName × TypeSignature)} {dataMap : List (ClarityName × Value)} :
    ∀ {data : List (ClarityName × Value)} {typeMap' dataMap'},
      collect typeMap dataMap data = ok (typeMap', dataMap') → ∀ p ∈ dataMap', p ∈ dataMap ∨ p ∈ data
  | [], _, _, h => by
    simp only [collect, ok.injEq, Prod.mk.injEq] at h
    obtain ⟨-, rfl⟩ := h
    exact fun p hp => .inl hp
  | (name, value) :: data, _, _, h => by
    simp only [collect] at h
    cases ht : value.typeOf with
    | none => simp [ht] at h
    | some typeInfo =>
      simp only [ht, expect_some, ok_bind] at h
      split_ifs at h
      intro p hp
      rcases collect_mem h p hp with hp | hp
      · rcases BTreeMap.mem_insert hp with rfl | hp
        · exact .inr List.mem_cons_self
        · exact .inl hp
      · exact .inr (List.mem_cons_of_mem _ hp)

theorem collectTyped_mem {expected : TupleTypeSignature} {dataMap : List (ClarityName × Value)} :
    ∀ {data : List (ClarityName × Value)} {dataMap'},
      collectTyped expected dataMap data = ok dataMap' → ∀ p ∈ dataMap', p ∈ dataMap ∨ p ∈ data
  | [], _, h => by
    simp only [collectTyped, ok.injEq] at h
    subst h
    exact fun p hp => .inl hp
  | (name, value) :: data, _, h => by
    simp only [collectTyped] at h
    cases hf : expected.fieldType name with
    | none => simp [hf] at h
    | some expectedType =>
      simp only [hf, ofOption_some, ok_bind] at h
      cases ha : expectedType.admits value with
      | none => simp [ha] at h
      | some a =>
        cases a <;> simp only [ha, expect_some, ok_bind, Bool.not_false, Bool.not_true,
          if_true, if_false, Bool.false_eq_true, reduceCtorEq] at h
        intro p hp
        rcases collectTyped_mem h p hp with hp | hp
        · rcases BTreeMap.mem_insert hp with rfl | hp
          · exact .inr List.mem_cons_self
          · exact .inl hp
        · exact .inr (List.mem_cons_of_mem _ hp)

/-- A tuple built from entries holds only entries it was given. -/
theorem fromData_mem {data : List (ClarityName × Value)} {t : TupleData} (h : fromData data = ok t) :
    ∀ p ∈ t.dataMap, p ∈ data := by
  unfold fromData at h
  obtain ⟨⟨typeMap, dataMap⟩, hc, h⟩ := bind_eq_ok.mp h
  obtain ⟨typeSignature, -, h⟩ := bind_eq_ok.mp h
  cases h
  intro p hp
  rcases collect_mem hc p hp with hp | hp
  · simp at hp
  · exact hp

theorem fromDataTyped_mem {data : List (ClarityName × Value)} {expected : TupleTypeSignature}
    {t : TupleData} (h : fromDataTyped data expected = ok t) : ∀ p ∈ t.dataMap, p ∈ data := by
  unfold fromDataTyped at h
  obtain ⟨dataMap, hc, h⟩ := bind_eq_ok.mp h
  cases h
  intro p hp
  rcases collectTyped_mem hc p hp with hp | hp
  · simp at hp
  · exact hp

end TupleData

end BlockstackCore
