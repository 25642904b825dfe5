import BlockstackCore.Library.Outcome
import BlockstackCore.Library.ByteCodec
import BlockstackCore.Library.BTreeMap
import BlockstackCore.Vm.Types.Principals
import BlockstackCore.Vm.Costs

/-!
# Type signatures

`TypeSignature` (`vm/types/signatures.rs`) with its depth, its two size
measures, `admits_type` and `least_supertype`, and the guarded constructors
that refuse a type deeper than `MAX_TYPE_DEPTH` or larger than
`MAX_VALUE_SIZE`.

A tuple type's `BTreeMap` is its entries in key order (`BTreeMap`). Sizes are
`u32` in the source; they are `Nat` here with `checked_add` and `checked_mul`
kept as `checkedAdd 32` and `checkedMul 32`. Depths are `u8`; no type that the
constructors build is deeper than 32, so they are `Nat`.

`inner_size` returns `Option<u32>` and may also panic, in the `size()` of a
component: it is an `Outcome Unit Nat` whose error is `None`. `admits_type`
panics on `NoType`: it returns `Option Bool` with `none` for the panic.
-/

namespace BlockstackCore

open ByteCodec Outcome

def MAX_VALUE_SIZE : Nat := 1024 * 1024

def MAX_TYPE_DEPTH : Nat := 32

def WRAPPER_VALUE_SIZE : Nat := 1

/-- A fungible or non-fungible asset: the contract that defines it and its name. -/
structure AssetIdentifier where
  contractIdentifier : QualifiedContractIdentifier
  assetName : ClarityName
  deriving DecidableEq, Hashable, Repr

/-- `BufferLength`: a `u32` that `TryFrom` builds only up to `MAX_VALUE_SIZE`. -/
structure BufferLength where
  val : Nat
  le_max : val ≤ MAX_VALUE_SIZE
  deriving DecidableEq, Repr

inductive TypeSignature where
  | noType
  | intType
  | uIntType
  | boolType
  | bufferType (len : BufferLength)
  | principalType
  | listType (maxLen : Nat) (entryType : TypeSignature)
  | tupleType (typeMap : List (ClarityName × TypeSignature))
  | optionalType (t : TypeSignature)
  | responseType (okType errType : TypeSignature)
  | traitReferenceType (t : TraitIdentifier)
  deriving Repr

namespace TypeSignature

mutual
/-- The derived `PartialEq`: structural equality. -/
def beq : TypeSignature → TypeSignature → Bool
  | .noType, .noType | .intType, .intType | .uIntType, .uIntType | .boolType, .boolType
  | .principalType, .principalType => true
  | .bufferType a, .bufferType b => a == b
  | .listType n e, .listType n' e' => n == n' && e.beq e'
  | .tupleType m, .tupleType m' => beqMap m m'
  | .optionalType t, .optionalType t' => t.beq t'
  | .responseType a b, .responseType a' b' => a.beq a' && b.beq b'
  | .traitReferenceType t, .traitReferenceType t' => t == t'
  | _, _ => false
def beqMap : List (ClarityName × TypeSignature) → List (ClarityName × TypeSignature) → Bool
  | [], [] => true
  | (k, t) :: m, (k', t') :: m' => k == k' && t.beq t' && beqMap m m'
  | _, _ => false
end

mutual
theorem eq_of_beq : (a b : TypeSignature) → a.beq b = true → a = b
  | .noType, b, h | .intType, b, h | .uIntType, b, h | .boolType, b, h | .principalType, b, h =>
    by cases b <;> simp_all [beq]
  | .bufferType l, b, h | .traitReferenceType l, b, h => by cases b <;> simp_all [beq]
  | .listType n e, b, h => by
    cases b <;> simp only [beq, Bool.and_eq_true, beq_iff_eq, Bool.false_eq_true] at h
    case listType n' e' => rw [h.1, eq_of_beq e e' h.2]
  | .tupleType m, b, h => by
    cases b <;> simp only [beq, Bool.false_eq_true] at h
    case tupleType m' => rw [eq_of_beqMap m m' h]
  | .optionalType t, b, h => by
    cases b <;> simp only [beq, Bool.false_eq_true] at h
    case optionalType t' => rw [eq_of_beq t t' h]
  | .responseType x y, b, h => by
    cases b <;> simp only [beq, Bool.and_eq_true, Bool.false_eq_true] at h
    case responseType x' y' => rw [eq_of_beq x x' h.1, eq_of_beq y y' h.2]
theorem eq_of_beqMap : (a b : List (ClarityName × TypeSignature)) → beqMap a b = true → a = b
  | [], b, h => by cases b <;> simp_all [beqMap]
  | (k, t) :: m, b, h => by
    match b with
    | [] => simp [beqMap] at h
    | (k', t') :: m' =>
      simp only [beqMap, Bool.and_eq_true, beq_iff_eq] at h
      rw [h.1.1, eq_of_beq t t' h.1.2, eq_of_beqMap m m' h.2]
end

mutual
theorem beq_refl : (a : TypeSignature) → a.beq a = true
  | .noType | .intType | .uIntType | .boolType | .principalType => rfl
  | .bufferType l | .traitReferenceType l => by simp [beq]
  | .listType n e => by simp [beq, beq_refl e]
  | .tupleType m => by simp [beq, beqMap_refl m]
  | .optionalType t => by simp [beq, beq_refl t]
  | .responseType x y => by simp [beq, beq_refl x, beq_refl y]
theorem beqMap_refl : (a : List (ClarityName × TypeSignature)) → beqMap a a = true
  | [] => rfl
  | (k, t) :: m => by simp [beqMap, beq_refl t, beqMap_refl m]
end

instance : BEq TypeSignature := ⟨beq⟩

instance : LawfulBEq TypeSignature where
  eq_of_beq h := eq_of_beq _ _ h
  rfl := beq_refl _

instance : DecidableEq TypeSignature := fun _ _ => decidable_of_iff _ beq_iff_eq

/-- `is_no_type`. -/
def isNoType : TypeSignature → Bool
  | .noType => true
  | _ => false

end TypeSignature

/-- The errors of the type layer that the modelled functions raise. -/
inductive CheckErrors where
  | valueTooLarge
  | typeSignatureTooDeep
  | emptyTuplesNotAllowed
  | nameAlreadyUsed (name : ClarityName)
  | typeError (a b : TypeSignature)
  | publicFunctionMustReturnResponse (t : TypeSignature)
  | incorrectArgumentCount (expected found : Nat)
  | expectedListOrBuffer (t : TypeSignature)
  | expectedListApplication
  | maxLengthOverflow
  | nonFunctionApplication
  | illegalOrUnknownFunctionApplication (name : ClarityName)
  | undefinedVariable (name : ClarityName)
  | undefinedFunction (name : ClarityName)
  | unknownFunction (name : ClarityName)
  | expectedName
  | noSuchFT (name : ClarityName)
  | badMintFTArguments
  | badTransferFTArguments
  | costOverflow
  | costBalanceExceeded (total limit : ExecutionCost)
  | memoryBalanceExceeded (used limit : Nat)
  | circularReference (names : List String)
  | badFunctionName
  | requiresAtLeastArguments (expected found : Nat)
  deriving DecidableEq, Repr

/-- `From<CostErrors> for CheckErrors`. -/
def CheckErrors.ofCostErrors : CostErrors → CheckErrors
  | .costOverflow => .costOverflow
  | .costBalanceExceeded total limit => .costBalanceExceeded total limit
  | .memoryBalanceExceeded used limit => .memoryBalanceExceeded used limit

structure ListTypeData where
  maxLen : Nat
  entryType : TypeSignature
  deriving DecidableEq, Repr

structure TupleTypeSignature where
  typeMap : List (ClarityName × TypeSignature)
  deriving DecidableEq, Repr

/-- `TryFrom<u32>` and `TryFrom<usize>` for `BufferLength`. -/
def BufferLength.tryFrom (data : Nat) : Except CheckErrors BufferLength :=
  if h : data ≤ MAX_VALUE_SIZE then .ok ⟨data, h⟩ else .error .valueTooLarge

/-- `u32::try_from` of a length. -/
def u32TryFrom (n : Nat) : Option Nat := if n < 2 ^ 32 then some n else none

/-- The check that closes each size computation. -/
def capAtMaxValueSize (total : Nat) : Option Nat :=
  if total > MAX_VALUE_SIZE then none else some total

namespace TypeSignature

mutual
def depth : TypeSignature → Nat
  | .traitReferenceType _ | .noType | .intType | .uIntType | .boolType | .principalType
  | .bufferType _ => 1
  | .tupleType typeMap => 1 + maxDepth typeMap
  | .listType _ entryType => 1 + entryType.depth
  | .optionalType t => 1 + t.depth
  | .responseType okType errType => 1 + max okType.depth errType.depth
/-- `TupleTypeSignature::max_depth`. -/
def maxDepth : List (ClarityName × TypeSignature) → Nat
  | [] => 0
  | (_, t) :: rest => max t.depth (maxDepth rest)
end

mutual
/-- `inner_type_size`: the size of the type signature itself. -/
def innerTypeSize : TypeSignature → Option Nat
  | .noType | .intType | .uIntType | .boolType | .principalType => some 1
  | .bufferType _ => some (1 + 4)
  | .tupleType typeMap => do
    let start ← checkedMul 32 (← u32TryFrom typeMap.length) 2
    capAtMaxValueSize (← typeMapTypeSize start typeMap)
  | .listType _ entryType => do
    capAtMaxValueSize (← checkedAdd 32 (← entryType.innerTypeSize) (4 + 1))
  | .optionalType t => do checkedAdd 32 (← t.innerTypeSize) 1
  | .responseType t s => do
    checkedAdd 32 (← checkedAdd 32 (← t.innerTypeSize) (← s.innerTypeSize)) 1
  | .traitReferenceType _ => some 1
/-- The loop of `TupleTypeSignature::type_size`. -/
def typeMapTypeSize (total : Nat) : List (ClarityName × TypeSignature) → Option Nat
  | [] => some total
  | (name, t) :: rest => do
    let total ← checkedAdd 32 (← checkedAdd 32 total (← t.innerTypeSize)) name.bytes.length
    typeMapTypeSize total rest
end

mutual
/-- `inner_size`: `err ()` is `None`, a panic is the `size()` of a component
that has none. -/
def innerSize : TypeSignature → Outcome Unit Nat
  | .noType => ok 1
  | .intType => ok 16
  | .uIntType => ok 16
  | .boolType => ok 1
  | .principalType => ok 148
  | .bufferType len => ok (4 + len.val)
  | .tupleType typeMap => do
    let start ← ofOption () (u32TryFrom typeMap.length)
    let start ← ofOption () (checkedMul 32 start 2)
    let start ← ofOption () (checkedAdd 32 start (← ofOption () (innerTypeSize (.tupleType typeMap))))
    ofOption () (capAtMaxValueSize (← typeMapSize start typeMap))
  | .listType maxLen entryType => do
    let total ← ofOption () (checkedMul 32 (← entryType.innerSize.expectOk) maxLen)
    let total ← ofOption () (checkedAdd 32 total
      (← ofOption () (innerTypeSize (.listType maxLen entryType))))
    ofOption () (capAtMaxValueSize total)
  | .optionalType t => do ofOption () (checkedAdd 32 (← t.innerSize.expectOk) WRAPPER_VALUE_SIZE)
  | .responseType t s => do
    let tSize ← t.innerSize.expectOk
    let sSize ← s.innerSize.expectOk
    ofOption () (checkedAdd 32 (max tSize sSize) WRAPPER_VALUE_SIZE)
  | .traitReferenceType _ => ok 276
/-- The loop of `TupleTypeSignature::inner_size`. -/
def typeMapSize (total : Nat) : List (ClarityName × TypeSignature) → Outcome Unit Nat
  | [] => ok total
  | (name, t) :: rest => do
    let total ← ofOption () (checkedAdd 32 total (← t.innerSize.expectOk))
    typeMapSize (← ofOption () (checkedAdd 32 total name.bytes.length)) rest
end

/-- `size()`: `inner_size().expect(..)`. -/
def size {ε : Type} (t : TypeSignature) : Outcome ε Nat := t.innerSize.expectOk

mutual
/-- `admits_type`; `none` is the panic on `NoType`. -/
def admitsType : TypeSignature → TypeSignature → Option Bool
  | .listType myMaxLen myEntryType, other =>
    match other with
    | .listType otherMaxLen otherEntryType =>
      if otherMaxLen ≤ 0 then some true
      else if myMaxLen ≥ otherMaxLen then myEntryType.admitsType otherEntryType
      else some false
    | _ => some false
  | .optionalType myInnerType, other =>
    match other with
    | .optionalType otherInnerType =>
      if otherInnerType.isNoType then some true else myInnerType.admitsType otherInnerType
    | _ => some false
  | .responseType myOk myErr, other =>
    match other with
    | .responseType otherOk otherErr =>
      if otherOk.isNoType then myErr.admitsType otherErr
      else if otherErr.isNoType then myOk.admitsType otherOk
      else do
        if ← myErr.admitsType otherErr then myOk.admitsType otherOk else pure false
    | _ => some false
  | .bufferType myLen, other =>
    match other with
    | .bufferType otherLen => some (decide (myLen.val ≥ otherLen.val))
    | _ => some false
  | .tupleType myMap, other =>
    match other with
    | .tupleType otherMap =>
      if myMap.length ≠ otherMap.length then some false else typeMapAdmits myMap otherMap
    | _ => some false
  | .noType, _ => none
  | self, other => some (other == self)
/-- The loop of `TupleTypeSignature::admits`. -/
def typeMapAdmits : List (ClarityName × TypeSignature) → List (ClarityName × TypeSignature) →
    Option Bool
  | [], _ => some true
  | (name, myTypeSig) :: rest, other =>
    match BTreeMap.get name other with
    | some otherTypeSig => do
      if ← myTypeSig.admitsType otherTypeSig then typeMapAdmits rest other else pure false
    | none => some false
end

end TypeSignature

namespace ListTypeData

/-- `ListTypeData::inner_size`. -/
def innerSize (d : ListTypeData) : Outcome Unit Nat := (TypeSignature.listType d.maxLen d.entryType).innerSize

/-- `ListTypeData::new_list`. -/
def newList (entryType : TypeSignature) (maxLen : Nat) : Outcome CheckErrors ListTypeData :=
  let wouldBeDepth := 1 + entryType.depth
  if wouldBeDepth > MAX_TYPE_DEPTH then err .typeSignatureTooDeep
  else
    let listData : ListTypeData := ⟨maxLen, entryType⟩
    match listData.innerSize with
    | .ok wouldBeSize => if wouldBeSize > MAX_VALUE_SIZE then err .valueTooLarge else ok listData
    | .err () => err .valueTooLarge
    | .panic => panic

end ListTypeData

namespace TupleTypeSignature

def len (t : TupleTypeSignature) : Nat := t.typeMap.length

/-- `field_type`. -/
def fieldType (t : TupleTypeSignature) (field : ClarityName) : Option TypeSignature :=
  BTreeMap.get field t.typeMap

/-- `TryFrom<BTreeMap<ClarityName, TypeSignature>>`. -/
def tryFrom (typeMap : List (ClarityName × TypeSignature)) : Outcome CheckErrors TupleTypeSignature :=
  if typeMap.length = 0 then err .emptyTuplesNotAllowed
  else if typeMap.any (fun (_, childSig) => 1 + childSig.depth > MAX_TYPE_DEPTH) then
    err .typeSignatureTooDeep
  else
    match (TypeSignature.tupleType typeMap).innerSize with
    | .ok wouldBeSize =>
      if wouldBeSize > MAX_VALUE_SIZE then err .valueTooLarge else ok ⟨typeMap⟩
    | .err () => err .valueTooLarge
    | .panic => panic

end TupleTypeSignature

namespace TypeSignature

def newOption (innerType : TypeSignature) : Outcome CheckErrors TypeSignature := do
  let newSize := WRAPPER_VALUE_SIZE + (← innerType.size)
  let newDepth := 1 + innerType.depth
  if newSize > MAX_VALUE_SIZE then err .valueTooLarge
  else if newDepth > MAX_TYPE_DEPTH then err .typeSignatureTooDeep
  else ok (.optionalType innerType)

def newResponse (okType errType : TypeSignature) : Outcome CheckErrors TypeSignature := do
  let newSize := WRAPPER_VALUE_SIZE + max (← okType.size) (← errType.size)
  let newDepth := 1 + max okType.depth errType.depth
  if newSize > MAX_VALUE_SIZE then err .valueTooLarge
  else if newDepth > MAX_TYPE_DEPTH then err .typeSignatureTooDeep
  else ok (.responseType okType errType)

def listOf (itemType : TypeSignature) (maxLen : Nat) : Outcome CheckErrors TypeSignature :=
  (ListTypeData.newList itemType maxLen).bind fun d => ok (.listType d.maxLen d.entryType)

def emptyList : ListTypeData := ⟨0, .noType⟩

/-- `factor_out_no_type`, given the least supertype of `a` and `b` to fall
back on. -/
def factorOutNoType (a b : TypeSignature) (leastSupertypeAB : Outcome CheckErrors TypeSignature) :
    Outcome CheckErrors TypeSignature :=
  if a.isNoType then ok b else if b.isNoType then ok a else leastSupertypeAB

mutual
/-- `least_supertype`. Its two `expect`s panic where the supertype of two
tuples or two lists is too large to construct. -/
def leastSupertype : TypeSignature → TypeSignature → Outcome CheckErrors TypeSignature
  | .tupleType typesA, .tupleType typesB =>
    if typesA.length ≠ typesB.length then err (.typeError (.tupleType typesA) (.tupleType typesB))
    else do
      let typeMapOut ←
        supertypeMap (.tupleType typesA) (.tupleType typesB) typesB typesA []
      (TupleTypeSignature.tryFrom typeMapOut).expectOk.bind fun t => ok (.tupleType t.typeMap)
  | .listType lenA entryA, .listType lenB entryB => do
    let entryType ←
      if lenA = 0 then ok entryB else if lenB = 0 then ok entryA else leastSupertype entryA entryB
    (listOf entryType (max lenA lenB)).expectOk
  | .responseType okA errA, .responseType okB errB => do
    let okType ← factorOutNoType okA okB (leastSupertype okA okB)
    let errType ← factorOutNoType errA errB (leastSupertype errA errB)
    newResponse okType errType
  | .optionalType someA, .optionalType someB => do
    newOption (← factorOutNoType someA someB (leastSupertype someA someB))
  | .bufferType buffA, .bufferType buffB =>
    ok (.bufferType (if buffA.val > buffB.val then buffA else buffB))
  | .noType, x | x, .noType => ok x
  | x, y => if x == y then ok x else err (.typeError x y)
/-- The loop over the first tuple's entries, building `type_map_out`. -/
def supertypeMap (a b : TypeSignature) (typesB : List (ClarityName × TypeSignature)) :
    List (ClarityName × TypeSignature) → List (ClarityName × TypeSignature) →
      Outcome CheckErrors (List (ClarityName × TypeSignature))
  | [], typeMapOut => ok typeMapOut
  | (name, entryA) :: rest, typeMapOut => do
    let entryB ← ofOption (.typeError a b) (BTreeMap.get name typesB)
    let entryOut ← leastSupertype entryA entryB
    supertypeMap a b typesB rest (BTreeMap.insert name entryOut typeMapOut)
end

/-- `parent_list_type`: the least supertype of the children, as a list type
as long as they are. -/
def parentListType (children : List TypeSignature) : Outcome CheckErrors ListTypeData :=
  match children with
  | [] => ok emptyList
  | first :: rest => do
    let currentEntryType ← rest.foldlM leastSupertype first
    let len ← ofOption .valueTooLarge (u32TryFrom children.length)
    ListTypeData.newList currentEntryType len

end TypeSignature

/-! ### A supertype too large to build -/

namespace TypeSignature

/-- `list_of` refuses a list type whose size `inner_size` does not give: one
that overflows `u32` or exceeds `MAX_VALUE_SIZE`. -/
theorem listOf_of_innerSize_err {entry : TypeSignature} {maxLen : Nat}
    (hdepth : ¬ 1 + entry.depth > MAX_TYPE_DEPTH) (hsize : (ListTypeData.mk maxLen entry).innerSize = err ()) :
    listOf entry maxLen = err .valueTooLarge := by
  simp only [listOf, ListTypeData.newList, hdepth, if_false, hsize]
  rfl

/-- The supertype of two non-empty list types is the list of the entries'
supertype at the longer length. When `list_of` refuses that list, the
`expect` around it panics. -/
theorem leastSupertype_list_of_listOf_err {lenA lenB : Nat} {entryA entryB entry : TypeSignature}
    {e : CheckErrors} (hA : lenA ≠ 0) (hB : lenB ≠ 0) (hentry : leastSupertype entryA entryB = ok entry)
    (hlist : listOf entry (max lenA lenB) = err e) :
    leastSupertype (.listType lenA entryA) (.listType lenB entryB) = .panic := by
  simp only [leastSupertype, hA, hB, if_false, hentry, ok_bind, hlist]
  rfl

theorem leastSupertype_panics_on_long_lists :
    ∃ a b : TypeSignature,
      listOf (.bufferType ⟨1000, by decide⟩) 1 = ok a ∧
      listOf (.bufferType ⟨1, by decide⟩) 2000 = ok b ∧
      leastSupertype a b = .panic := by
  refine ⟨_, _, rfl, rfl, ?_⟩
  -- the supertype is a list of 2000 buffers of 1000 bytes: 2008010 bytes
  have hsize : (ListTypeData.mk (max 1 2000) (.bufferType ⟨1000, by decide⟩)).innerSize = err () :=
    rfl
  have hlist : listOf (.bufferType ⟨1000, by decide⟩) (max 1 2000) = err .valueTooLarge :=
    listOf_of_innerSize_err (by decide) hsize
  exact leastSupertype_list_of_listOf_err (by decide) (by decide) rfl hlist

end TypeSignature

end BlockstackCore
