import BlockstackCore.Vm.Types.Value

/-!
# Lists and buffers: the checker's types and the evaluator's values

The type checker (`vm/analysis/type_checker`) gives every expression a type;
the evaluator (`vm/mod.rs`, `vm/functions/iterables.rs`) computes its value,
and a list value carries a type signature of its own, which `admits`
compares against a type. This module models both on a fragment of the
language: literals, variables, calls of user-defined functions, and the
natives `list`, `filter`, `append`, `concat` and `as-max-len?`.

The head of an application is resolved when the expression is built: a name
that `NativeFunctions::lookup_by_name` knows is one of the natives, any other
name a user-defined function. Costs, memory accounting, the call stack and the
type map the checker fills are left out. The functions and variables in scope
are lookups given as section variables; a user-defined function's body is
given by what it evaluates to on its arguments.
-/

namespace BlockstackCore

open ByteCodec Outcome

/-- The natives of `vm/functions/iterables.rs` that the fragment keeps. -/
inductive NativeFunctions where
  | listCons
  | filter
  | append
  | concat
  | asMaxLen
  deriving DecidableEq, Repr

inductive SymbolicExpression where
  | literalValue (v : Value)
  | atom (name : ClarityName)
  /-- An application of a native. -/
  | native (f : NativeFunctions) (args : List SymbolicExpression)
  /-- An application of a user-defined function. -/
  | call (name : ClarityName) (args : List SymbolicExpression)
  deriving Repr

namespace SymbolicExpression

def matchAtom : SymbolicExpression → Option ClarityName
  | .atom name => some name
  | _ => none

def matchLiteralValue : SymbolicExpression → Option Value
  | .literalValue v => some v
  | _ => none

end SymbolicExpression

/-- The loop shared by `FunctionType::check_args` and
`DefinedFunction::execute_apply`: admit each argument by its expected type,
and fail on the first one refused. `admits` is `none` where it panics. -/
def admitEach {α ε : Type} (admits : TypeSignature → α → Option Bool)
    (refused : TypeSignature → α → ε) : List (TypeSignature × α) → Outcome ε Unit
  | [] => ok ()
  | (expected, found) :: rest => do
    if !(← expect (admits expected found)) then err (refused expected found)
    else admitEach admits refused rest

def checkArgumentCount {α : Type} (expected : Nat) (args : List α) : Outcome CheckErrors Unit :=
  if args.length != expected then err (.incorrectArgumentCount expected args.length) else ok ()

namespace TypeSignature

/-- `min_buffer`. -/
def minBuffer : TypeSignature := .bufferType ⟨1, by decide⟩

/-- `max_buffer`. -/
def maxBuffer : TypeSignature := .bufferType ⟨MAX_VALUE_SIZE, le_refl _⟩

end TypeSignature

/-- `FixedFunction`: the argument types and the return type of a
user-defined function, as the checker knows it. -/
structure FixedFunction where
  args : List TypeSignature
  returns : TypeSignature

/-- `FunctionType::check_args` for a `Fixed` function type. -/
def FixedFunction.checkArgs (f : FixedFunction) (args : List TypeSignature) :
    Outcome CheckErrors TypeSignature := do
  checkArgumentCount f.args.length args
  admitEach TypeSignature.admitsType .typeError (f.args.zip args)
  ok f.returns

/-- A `DefinedFunction` as the evaluator knows it: its argument types, and
the value its body evaluates to on arguments bound to its parameters. -/
structure UserFunction where
  argTypes : List TypeSignature
  body : List Value → Outcome ClarityError Value

/-- `DefinedFunction::execute_apply`, for arguments that are not trait
references. -/
def UserFunction.executeApply (f : UserFunction) (args : List Value) :
    Outcome ClarityError Value :=
  if args.length != f.argTypes.length then
    err (.unchecked (.incorrectArgumentCount f.argTypes.length args.length))
  else do
    admitEach TypeSignature.admits .typeValueError (f.argTypes.zip args)
    f.body args

/-! ### The checker -/

/-- The end of `check_special_filter`: the function must take the items and
return a `bool`, and the result has the type of the input. -/
def filterType (f : FixedFunction) (argumentType : TypeSignature) :
    Outcome CheckErrors TypeSignature := do
  let inputType ← match argumentType with
    | .listType _ entryType => ok entryType
    | .bufferType _ => ok TypeSignature.minBuffer
    | _ => err (.expectedListOrBuffer argumentType)
  let filterType ← f.checkArgs [inputType]
  if filterType != .boolType then err (.typeError .boolType filterType) else ok argumentType

/-- The end of `check_special_append`, once the list is known to be a list. -/
def appendType (lhsMaxLen : Nat) (lhsEntryType rhsType : TypeSignature) :
    Outcome CheckErrors TypeSignature := do
  let listEntryType ← TypeSignature.leastSupertype lhsEntryType rhsType
  let newLen ← ofOption .maxLengthOverflow (checkedAdd 32 lhsMaxLen 1)
  TypeSignature.listOf listEntryType newLen

/-- The end of `check_special_concat`. -/
def concatType (lhsType rhsType : TypeSignature) : Outcome CheckErrors TypeSignature :=
  match lhsType, rhsType with
  | .listType lhsMaxLen lhsEntryType, .listType rhsMaxLen rhsEntryType => do
    let listEntryType ← TypeSignature.leastSupertype lhsEntryType rhsEntryType
    let newLen ← ofOption .maxLengthOverflow (checkedAdd 32 lhsMaxLen rhsMaxLen)
    TypeSignature.listOf listEntryType newLen
  | .listType lhsMaxLen lhsEntryType, rhsType =>
    err (.typeError rhsType (.listType lhsMaxLen lhsEntryType))
  | .bufferType lhsBuffLen, .bufferType rhsBuffLen => do
    let size ← ofOption .maxLengthOverflow (checkedAdd 32 lhsBuffLen.val rhsBuffLen.val)
    let len ← ofExcept (BufferLength.tryFrom size)
    ok (.bufferType len)
  | .bufferType _, rhsType => err (.typeError rhsType TypeSignature.maxBuffer)
  | lhsType, _ => err (.expectedListOrBuffer lhsType)

/-- The end of `check_special_as_max_len`: the input's entries, at the
length asked for. -/
def asMaxLenType (expectedLen : Nat) (iterable : TypeSignature) :
    Outcome CheckErrors TypeSignature :=
  match iterable with
  | .listType _ lhsEntryType => do
    let resizedList ← ListTypeData.newList lhsEntryType expectedLen
    ok (.optionalType (.listType resizedList.maxLen resizedList.entryType))
  | .bufferType _ =>
    -- `BufferLength::try_from(expected_len).unwrap()`
    match BufferLength.tryFrom expectedLen with
    | .ok len => ok (.optionalType (.bufferType len))
    | .error _ => panic
  | _ => err (.expectedListOrBuffer iterable)

section TypeCheck

variable (functionType : ClarityName → Option FixedFunction)
  (variableType : ClarityName → Option TypeSignature)

mutual
/-- `TypeChecker::type_check`. Each native first checks that it has two
arguments, then types them in the order its `check_special_*` does. -/
def typeCheck : SymbolicExpression → Outcome CheckErrors TypeSignature
  | .literalValue v => expect v.typeOf
  | .atom name => ofOption (.undefinedVariable name) (variableType name)
  | .call name args => do
    let f ← ofOption (.unknownFunction name) (functionType name)
    f.checkArgs (← typeCheckAll args)
  | .native .listCons args => do
    let listType ← TypeSignature.parentListType (← typeCheckAll args)
    ok (.listType listType.maxLen listType.entryType)
  | .native .filter [fn, iterable] => do
    let functionName ← ofOption .nonFunctionApplication fn.matchAtom
    let f ← ofOption (.illegalOrUnknownFunctionApplication functionName) (functionType functionName)
    filterType f (← typeCheck iterable)
  | .native .append [list, element] => do
    match ← typeCheck list with
    | .listType lhsMaxLen lhsEntryType => appendType lhsMaxLen lhsEntryType (← typeCheck element)
    | _ => err .expectedListApplication
  | .native .concat [lhs, rhs] => do
    let lhsType ← typeCheck lhs
    concatType lhsType (← typeCheck rhs)
  | .native .asMaxLen [iterable, len] =>
    -- the length must be a `uint` literal; anything else is typed for the error
    match len with
    | .literalValue (.uInt expectedLen) => do
      let expectedLen ← ofOption .maxLengthOverflow (u32TryFrom expectedLen.toNat)
      asMaxLenType expectedLen (← typeCheck iterable)
    | len => do err (.typeError .uIntType (← typeCheck len))
  | .native _ args => err (.incorrectArgumentCount 2 args.length)
/-- `type_check_all`. -/
def typeCheckAll : List SymbolicExpression → Outcome CheckErrors (List TypeSignature)
  | [] => ok []
  | e :: es => do
    let t ← typeCheck e
    let ts ← typeCheckAll es
    ok (t :: ts)
end

end TypeCheck

/-! ### The evaluator -/

/-- The loop of `special_filter`: apply the function to each item, as the
value `toArgument` makes of it, and keep the items it returns `true` for. -/
def filterItems {α : Type} (toArgument : α → Outcome ClarityError Value) (function : UserFunction) :
    List α → Outcome ClarityError (List α)
  | [] => ok []
  | x :: xs => do
    match ← function.executeApply [← toArgument x] with
    | .bool includeItem => do
      let rest ← filterItems toArgument function xs
      ok (if includeItem then x :: rest else rest)
    | filterEval => err (.typeValueError .boolType filterEval)

/-- The loop of `special_filter` over a list's items. -/
def filterList (function : UserFunction) : List Value → Outcome ClarityError (List Value) :=
  filterItems ok function

/-- The loop of `special_filter` over a buffer: each byte is passed as a
buffer of one byte. -/
def filterBuffer (function : UserFunction) : List UInt8 → Outcome ClarityError (List UInt8) :=
  filterItems (fun x => Value.buffFrom [x]) function

/-- The end of `special_filter`, once the iterable is evaluated. A filtered
list keeps the type signature of the input. -/
def filterIterable (function : UserFunction) (iterable : Value) : Outcome ClarityError Value :=
  match iterable with
  | .list data typeSignature => do
    Value.listWithType (← filterList function data) typeSignature
  | .buffer data => do Value.buffFrom (← filterBuffer function data)
  | _ => do err (.unchecked (.expectedListOrBuffer (← expect iterable.typeOf)))

/-- The end of `special_append`, once the list and the element are evaluated. -/
def appendValue (data : List Value) (typeSignature : ListTypeData) (element : Value) :
    Outcome ClarityError Value := do
  let entryType := typeSignature.entryType
  let size := typeSignature.maxLen
  let elementType ← expect element.typeOf
  if entryType.isNoType then
    -- `assert_eq!(size, 0)`
    if size != 0 then panic else Value.listFrom [element]
  else
    match TypeSignature.leastSupertype entryType elementType with
    | .ok nextEntryType => do
      let nextTypeSignature ← (ListTypeData.newList nextEntryType (size + 1)).mapErr .unchecked
      ok (.list (data ++ [element]) nextTypeSignature)
    | .err _ => err (.typeValueError entryType element)
    | .panic => panic

/-- The end of `special_concat`. -/
def concatValues (lhs rhs : Value) : Outcome ClarityError Value :=
  match lhs, rhs with
  | .list lhsData _, .list rhsData _ => Value.listFrom (lhsData ++ rhsData)
  | .buffer lhsData, .buffer rhsData => Value.buffFrom (lhsData ++ rhsData)
  | _, _ => err (.runtime .badTypeConstruction)

/-- The end of `special_as_max_len`, for a `uint` literal length: `none` if
the input is longer, else the input, unchanged, in a `some`. -/
def asMaxLenValue (iterable : Value) (expectedLen : Nat) : Outcome ClarityError Value := do
  let iterableLen ← match iterable with
    | .list data _ => ok data.length
    | .buffer data => ok data.length
    | _ => do err (.unchecked (.expectedListOrBuffer (← expect iterable.typeOf)))
  if iterableLen > expectedLen then ok Value.none else Value.some iterable

section Eval

variable (lookupFunction : ClarityName → Option UserFunction)
  (lookupVariable : ClarityName → Option Value)

mutual
/-- `eval`, with `apply` of a user-defined function and the `special_*`
functions of the natives. -/
def eval : SymbolicExpression → Outcome ClarityError Value
  | .literalValue v => ok v
  | .atom name => ofOption (.unchecked (.undefinedVariable name)) (lookupVariable name)
  | .call name args => do
    let f ← ofOption (.unchecked (.undefinedFunction name)) (lookupFunction name)
    f.executeApply (← evalAll args)
  | .native .listCons args => do Value.listFrom (← evalAll args)
  | .native .filter [fn, iterable] => do
    let functionName ← ofOption (.unchecked .expectedName) fn.matchAtom
    let function ← ofOption (.unchecked (.undefinedFunction functionName)) (lookupFunction functionName)
    filterIterable function (← eval iterable)
  | .native .append [list, element] => do
    match ← eval list with
    | .list data typeSignature => appendValue data typeSignature (← eval element)
    | _ => err (.unchecked .expectedListApplication)
  | .native .concat [lhs, rhs] => do
    let lhs ← eval lhs
    concatValues lhs (← eval rhs)
  | .native .asMaxLen [iterable, len] => do
    let iterable ← eval iterable
    match len.matchLiteralValue with
    | some (.uInt expectedLen) => asMaxLenValue iterable expectedLen.toNat
    | _ => do
      let actualLen ← eval len
      err (.unchecked (.typeError .uIntType (← expect actualLen.typeOf)))
  | .native _ args => err (.unchecked (.incorrectArgumentCount 2 args.length))
/-- The evaluation of a call's arguments, up to the first error. -/
def evalAll : List SymbolicExpression → Outcome ClarityError (List Value)
  | [] => ok []
  | e :: es => do
    let v ← eval e
    let vs ← evalAll es
    ok (v :: vs)
end

end Eval

/-! ### What `filter` and `as-max-len?` build -/

theorem u32TryFrom_eq_some {n m : Nat} (h : u32TryFrom n = some m) : m = n := by
  unfold u32TryFrom at h
  split_ifs at h
  cases h
  rfl

theorem ListTypeData.newList_ok {entryType : TypeSignature} {maxLen : Nat} {d : ListTypeData}
    (h : ListTypeData.newList entryType maxLen = ok d) : d = ⟨maxLen, entryType⟩ := by
  unfold ListTypeData.newList at h
  dsimp only at h
  split_ifs at h
  split at h
  · split_ifs at h
    cases h
    rfl
  · cases h
  · cases h

theorem TypeSignature.newOption_ok {t t' : TypeSignature} (h : TypeSignature.newOption t = ok t') :
    t' = .optionalType t := by
  unfold TypeSignature.newOption at h
  obtain ⟨size, -, h⟩ := bind_eq_ok.mp h
  dsimp only at h
  split_ifs at h
  cases h
  rfl

/-- The checker gives a `filter` the type of its input. -/
theorem filterType_ok {f : FixedFunction} {argumentType t : TypeSignature}
    (h : filterType f argumentType = ok t) : t = argumentType := by
  unfold filterType at h
  dsimp only at h
  -- each way of finding the items' type ends in the same check of the function
  split at h <;> simp only [ok_bind, err_bind] at h
  all_goals
    first
    | cases h
    | obtain ⟨returned, -, h⟩ := bind_eq_ok.mp h
      split_ifs at h
      cases h
      rfl

/-- The checker gives `as-max-len?` of a list the input's entries at the
length asked for. -/
theorem asMaxLenType_list {expectedLen maxLen : Nat} {entryType t : TypeSignature}
    (h : asMaxLenType expectedLen (.listType maxLen entryType) = ok t) :
    t = .optionalType (.listType expectedLen entryType) := by
  unfold asMaxLenType at h
  obtain ⟨resized, hr, h⟩ := bind_eq_ok.mp h
  cases h
  rw [ListTypeData.newList_ok hr]

theorem filterItems_sublist {α : Type} {toArgument : α → Outcome ClarityError Value}
    {function : UserFunction} {xs ys : List α}
    (h : filterItems toArgument function xs = ok ys) : ys.Sublist xs := by
  induction xs generalizing ys with
  | nil =>
    simp only [filterItems, ok.injEq] at h
    subst h
    exact List.Sublist.slnil
  | cons x xs ih =>
    simp only [filterItems] at h
    obtain ⟨argument, -, h⟩ := bind_eq_ok.mp h
    obtain ⟨filterEval, -, h⟩ := bind_eq_ok.mp h
    split at h
    · obtain ⟨rest, hrest, h⟩ := bind_eq_ok.mp h
      cases h
      split_ifs
      · exact (ih hrest).cons_cons x
      · exact (ih hrest).cons x
    · cases h

/-- A filtered list is some of the input's items, and keeps the type
signature the input carried. -/
theorem filterIterable_list {function : UserFunction} {data : List Value} {t : ListTypeData}
    {v : Value} (h : filterIterable function (.list data t) = ok v) :
    ∃ ys, ys.Sublist data ∧ v = .list ys t := by
  unfold filterIterable at h
  obtain ⟨ys, hys, h⟩ := bind_eq_ok.mp h
  exact ⟨ys, filterItems_sublist hys, Value.listWithType_ok h⟩

/-- `as-max-len?` of a list is `none`, or the list unchanged in a `some`. -/
theorem asMaxLenValue_list {data : List Value} {t : ListTypeData} {expectedLen : Nat} {v : Value}
    (h : asMaxLenValue (.list data t) expectedLen = ok v) :
    (expectedLen < data.length ∧ v = Value.none) ∨
      (data.length ≤ expectedLen ∧ v = .optional (some (.list data t))) := by
  simp only [asMaxLenValue, ok_bind] at h
  by_cases hlen : data.length > expectedLen
  · rw [if_pos hlen, ok.injEq] at h
    exact .inl ⟨hlen, h.symm⟩
  · rw [if_neg hlen] at h
    exact .inr ⟨Nat.le_of_not_gt hlen, Value.checkWrapped_ok h⟩

/-- An optional list whose carried signature is longer than a list type's
maximum is not admitted by the optional of that type, whatever its items. -/
theorem admits_optional_list_of_lt {expectedLen : Nat} {entryType : TypeSignature}
    {data : List Value} {carried : ListTypeData} (hlt : expectedLen < carried.maxLen) :
    (TypeSignature.optionalType (.listType expectedLen entryType)).admits
      (.optional (some (.list data carried))) ≠ some true := by
  intro h
  -- `type_of` of the value is `optional (list carried)`, unless it panics
  cases ht : TypeSignature.newOption (.listType carried.maxLen carried.entryType) with
  | ok t =>
    rw [TypeSignature.newOption_ok ht] at ht
    have hshort : ¬ expectedLen ≥ carried.maxLen := by omega
    simp [TypeSignature.admits, Value.typeOf, ht, Outcome.toOption, TypeSignature.admitsType,
      TypeSignature.isNoType, hshort] at h
    omega
  | err e => simp [TypeSignature.admits, Value.typeOf, ht, Outcome.toOption] at h
  | panic => simp [TypeSignature.admits, Value.typeOf, ht, Outcome.toOption] at h

section Narrowing

variable (functionType : ClarityName → Option FixedFunction)
  (variableType : ClarityName → Option TypeSignature)
  (lookupFunction : ClarityName → Option UserFunction)
  (lookupVariable : ClarityName → Option Value)

theorem typeCheck_asMaxLen_literal (iterable : SymbolicExpression) (expectedLen : BitVec 128) :
    typeCheck functionType variableType
        (.native .asMaxLen [iterable, .literalValue (.uInt expectedLen)]) = (do
      let expectedLen ← ofOption .maxLengthOverflow (u32TryFrom expectedLen.toNat)
      asMaxLenType expectedLen (← typeCheck functionType variableType iterable)) := rfl

theorem typeCheck_filter (fn iterable : SymbolicExpression) :
    typeCheck functionType variableType (.native .filter [fn, iterable]) = (do
      let functionName ← ofOption .nonFunctionApplication fn.matchAtom
      let f ← ofOption (.illegalOrUnknownFunctionApplication functionName)
        (functionType functionName)
      filterType f (← typeCheck functionType variableType iterable)) := rfl

theorem eval_asMaxLen_literal (iterable : SymbolicExpression) (expectedLen : BitVec 128) :
    eval lookupFunction lookupVariable
        (.native .asMaxLen [iterable, .literalValue (.uInt expectedLen)]) =
      (do asMaxLenValue (← eval lookupFunction lookupVariable iterable) expectedLen.toNat) := rfl

theorem eval_filter (fn iterable : SymbolicExpression) :
    eval lookupFunction lookupVariable (.native .filter [fn, iterable]) = (do
      let functionName ← ofOption (.unchecked .expectedName) fn.matchAtom
      let function ← ofOption (.unchecked (.undefinedFunction functionName))
        (lookupFunction functionName)
      filterIterable function (← eval lookupFunction lookupVariable iterable)) := rfl

variable {functionType variableType lookupFunction lookupVariable}

/-- The checker's type of `(as-max-len? (filter f xs) uN)`, for a list `xs`:
the entries of `xs`, at most `N` of them. -/
theorem typeCheck_asMaxLen_filter {fn iterable : SymbolicExpression} {expectedLen : BitVec 128}
    {maxLen : Nat} {entryType t : TypeSignature}
    (hiterable : typeCheck functionType variableType iterable = ok (.listType maxLen entryType))
    (h : typeCheck functionType variableType
      (.native .asMaxLen [.native .filter [fn, iterable], .literalValue (.uInt expectedLen)]) = ok t) :
    t = .optionalType (.listType expectedLen.toNat entryType) := by
  rw [typeCheck_asMaxLen_literal] at h
  obtain ⟨len, hlen, h⟩ := bind_eq_ok.mp h
  obtain ⟨filtered, hfiltered, h⟩ := bind_eq_ok.mp h
  rw [typeCheck_filter] at hfiltered
  obtain ⟨functionName, -, hfiltered⟩ := bind_eq_ok.mp hfiltered
  obtain ⟨f, -, hfiltered⟩ := bind_eq_ok.mp hfiltered
  rw [hiterable, ok_bind] at hfiltered
  rw [filterType_ok hfiltered] at h
  have hlen : len = expectedLen.toNat := u32TryFrom_eq_some (ofOption_eq_ok.mp hlen)
  rw [asMaxLenType_list h, hlen]

/-- The value of `(as-max-len? (filter f xs) uN)`, for a list `xs`: `none`,
or the filtered items in a `some`, still with the signature `xs` carried. -/
theorem eval_asMaxLen_filter {fn iterable : SymbolicExpression} {expectedLen : BitVec 128}
    {data : List Value} {carried : ListTypeData} {v : Value}
    (hiterable : eval lookupFunction lookupVariable iterable = ok (.list data carried))
    (h : eval lookupFunction lookupVariable
      (.native .asMaxLen [.native .filter [fn, iterable], .literalValue (.uInt expectedLen)]) = ok v) :
    v = Value.none ∨ ∃ ys, ys.Sublist data ∧ v = .optional (some (.list ys carried)) := by
  rw [eval_asMaxLen_literal] at h
  obtain ⟨filtered, hfiltered, h⟩ := bind_eq_ok.mp h
  rw [eval_filter] at hfiltered
  obtain ⟨functionName, -, hfiltered⟩ := bind_eq_ok.mp hfiltered
  obtain ⟨function, -, hfiltered⟩ := bind_eq_ok.mp hfiltered
  rw [hiterable, ok_bind] at hfiltered
  obtain ⟨ys, hys, rfl⟩ := filterIterable_list hfiltered
  rcases asMaxLenValue_list h with ⟨-, hnone⟩ | ⟨-, hsome⟩
  · exact .inl hnone
  · exact .inr ⟨ys, hys, hsome⟩

/-- `as-max-len?` narrows the type but not the value: whenever the list that
`filter` returns carries a longer signature than the length asked for and is
short enough to be returned, the type the checker gave the expression does
not admit its value. -/
theorem asMaxLen_filter_not_admitted {fn iterable : SymbolicExpression}
    {expectedLen : BitVec 128} {maxLen : Nat} {entryType t : TypeSignature}
    {data : List Value} {carried : ListTypeData} {v : Value}
    (hiterableType : typeCheck functionType variableType iterable = ok (.listType maxLen entryType))
    (hiterableValue : eval lookupFunction lookupVariable iterable = ok (.list data carried))
    (hlt : expectedLen.toNat < carried.maxLen)
    (htype : typeCheck functionType variableType
      (.native .asMaxLen [.native .filter [fn, iterable], .literalValue (.uInt expectedLen)]) = ok t)
    (hvalue : eval lookupFunction lookupVariable
      (.native .asMaxLen [.native .filter [fn, iterable], .literalValue (.uInt expectedLen)]) = ok v)
    (hsome : v ≠ Value.none) :
    t.admits v ≠ some true := by
  rw [typeCheck_asMaxLen_filter hiterableType htype]
  rcases eval_asMaxLen_filter hiterableValue hvalue with hnone | ⟨ys, -, rfl⟩
  · exact absurd hnone hsome
  · exact admits_optional_list_of_lt hlt

end Narrowing

/-- `is-one`. -/
def isOneName : ClarityName := ⟨[105, 115, 45, 111, 110, 101], by decide⟩

/-- The checker's view of `is-one`, a function from `int` to `bool`. -/
def isOneType : ClarityName → Option FixedFunction := fun name =>
  if name = isOneName then some ⟨[.intType], .boolType⟩ else none

/-- `is-one`, which keeps `1`. -/
def isOneFunction : ClarityName → Option UserFunction := fun name =>
  if name = isOneName then some ⟨[.intType], fun args => ok (.bool (args == [.int 1]))⟩ else none

/-- `(list 1 2 3)`. -/
def oneTwoThree : SymbolicExpression :=
  .native .listCons [.literalValue (.int 1), .literalValue (.int 2), .literalValue (.int 3)]

/-- `(as-max-len? (filter is-one (list 1 2 3)) u1)`. -/
theorem asMaxLen_filter_not_admitted_isOne :
    typeCheck isOneType (fun _ => none) oneTwoThree = ok (.listType 3 .intType) ∧
      eval isOneFunction (fun _ => none) oneTwoThree = ok (.list [.int 1, .int 2, .int 3] ⟨3, .intType⟩) ∧
      (1 : BitVec 128).toNat < (⟨3, .intType⟩ : ListTypeData).maxLen ∧
      typeCheck isOneType (fun _ => none)
          (.native .asMaxLen [.native .filter [.atom isOneName, oneTwoThree], .literalValue (.uInt 1)]) =
        ok (.optionalType (.listType 1 .intType)) ∧
      eval isOneFunction (fun _ => none)
          (.native .asMaxLen [.native .filter [.atom isOneName, oneTwoThree], .literalValue (.uInt 1)]) =
        ok (.optional (some (.list [.int 1] ⟨3, .intType⟩))) ∧
      Value.optional (some (.list [.int 1] ⟨3, .intType⟩)) ≠ Value.none ∧
      (TypeSignature.optionalType (.listType 1 .intType)).admits
        (.optional (some (.list [.int 1] ⟨3, .intType⟩))) ≠ some true := by
  have hiterableType : typeCheck isOneType (fun _ => none) oneTwoThree = ok (.listType 3 .intType) := rfl
  have hiterableValue : eval isOneFunction (fun _ => none) oneTwoThree =
      ok (.list [.int 1, .int 2, .int 3] ⟨3, .intType⟩) := rfl
  have hlt : (1 : BitVec 128).toNat < (⟨3, .intType⟩ : ListTypeData).maxLen := by decide
  have htype : typeCheck isOneType (fun _ => none)
      (.native .asMaxLen [.native .filter [.atom isOneName, oneTwoThree], .literalValue (.uInt 1)]) =
        ok (.optionalType (.listType 1 .intType)) := rfl
  have hvalue : eval isOneFunction (fun _ => none)
      (.native .asMaxLen [.native .filter [.atom isOneName, oneTwoThree], .literalValue (.uInt 1)]) =
        ok (.optional (some (.list [.int 1] ⟨3, .intType⟩))) := rfl
  have hsome : Value.optional (some (.list [.int 1] ⟨3, .intType⟩)) ≠ Value.none := by decide
  exact ⟨hiterableType, hiterableValue, hlt, htype, hvalue, hsome,
    asMaxLen_filter_not_admitted hiterableType hiterableValue hlt htype hvalue hsome⟩


/-- `(as-max-len? (filter is-one (list 1 2 3)) u1)` is typed
`(optional (list 1 int))` but evaluates to `(some (list 1))` carrying the
signature `(list 3 int)`, which that type does not admit; passed to a
function that takes `(optional (list 1 int))`, the program passes the
checker and fails in `execute_apply` with an unchecked `TypeValueError`. -/
theorem asMaxLen_filter_breaks_type_soundness :
    let isOneName : ClarityName := ⟨[105, 115, 45, 111, 110, 101], by decide⟩
    let firstOfName : ClarityName := ⟨[102, 105, 114, 115, 116, 45, 111, 102], by decide⟩
    let narrowedType : TypeSignature := .optionalType (.listType 1 .intType)
    let functionType : ClarityName → Option FixedFunction := fun name =>
      if name = isOneName then some ⟨[.intType], .boolType⟩
      else if name = firstOfName then some ⟨[narrowedType], .boolType⟩ else none
    let lookupFunction : ClarityName → Option UserFunction := fun name =>
      if name = isOneName then some ⟨[.intType], fun args => ok (.bool (args == [.int 1]))⟩
      else if name = firstOfName then some ⟨[narrowedType], fun _ => ok (.bool true)⟩ else none
    let narrowed : SymbolicExpression := .native .asMaxLen
      [.native .filter [.atom isOneName, .native .listCons
        [.literalValue (.int 1), .literalValue (.int 2), .literalValue (.int 3)]],
       .literalValue (.uInt 1)]
    let v : Value := .optional (some (.list [.int 1] ⟨3, .intType⟩))
    typeCheck functionType (fun _ => none) narrowed = ok narrowedType ∧
      eval lookupFunction (fun _ => none) narrowed = ok v ∧
      narrowedType.admits v = some false ∧
      typeCheck functionType (fun _ => none) (.call firstOfName [narrowed]) = ok .boolType ∧
      eval lookupFunction (fun _ => none) (.call firstOfName [narrowed]) =
        err (.typeValueError narrowedType v) := by
  refine ⟨rfl, rfl, rfl, rfl, rfl⟩

end BlockstackCore
