import BlockstackCore.Library.StateResult
import BlockstackCore.Vm.Contexts.GlobalContext

/-!
# Evaluation, application and the call stack

`eval` and `apply` (`vm/mod.rs`) with the `CallStack` they keep
(`vm/contexts.rs`), the cost and memory charges they make, and the callables
they apply (`vm/callables.rs`).

The environment is the state that evaluation changes: the call stack, the
cost tracker, and the read-only parts it consults (the contract's variables
and functions, the sender and caller, the block height the database reports).
A step is a `StateResult` on it: its result comes with the environment it
left, on the error path too, and `none` is a panic. `eval` and the functions
it calls carry a fuel bound; they return `none` when it runs out.

The natives are the callables' own pure functions (`NativeHandle`). Of the
special functions, which evaluate their arguments themselves, the model keeps
`if` and `asserts!`; of the natives, `begin`. A public or read-only function
runs `execute_apply` as `private` ones do: the begin, commit and roll back of
`execute_function_as_transaction` touch only the database levels, modelled
in `GlobalContext`. `add_stack_trace` fills a trace that the model's errors
do not carry.

Unlike the fragment of `Iterables`, whose applications are resolved when the
expression is built, an application here is a list whose head `eval` looks
up, as the code does.
-/

namespace BlockstackCore

/-- `From<CostErrors> for Error`. -/
def ClarityError.ofCostErrors (e : CostErrors) : ClarityError := .unchecked (.ofCostErrors e)

/-- `Into<Value> for ShortReturnType`. -/
def ShortReturnType.value : ShortReturnType → Value
  | .expectedValue v => v
  | .assertionFailed v => v

namespace Interpreter

open StateResult hiding pure bind

/-- `SymbolicExpressionType`; `eval` refuses the last two (`unreachable!`). -/
inductive SymbolicExpression where
  | atomValue (value : Value)
  | atom (name : ClarityName)
  | list (children : List SymbolicExpression)
  | literalValue (value : Value)
  | traitReference (name : ClarityName)
  | field (traitIdentifier : TraitIdentifier)

def SymbolicExpression.matchAtom : SymbolicExpression → Option ClarityName
  | .atom name => some name
  | _ => none

structure FunctionIdentifier where
  identifier : String
  deriving DecidableEq, Repr

namespace FunctionIdentifier

def newNativeFunction (name : String) : FunctionIdentifier := ⟨"_native_:" ++ name⟩

def newUserFunction (name context : String) : FunctionIdentifier := ⟨context ++ ":" ++ name⟩

end FunctionIdentifier

/-- `CallStack`: the applied functions, top first, and the set of those whose
recursion is tracked. -/
structure CallStack where
  stack : List FunctionIdentifier
  set : Finset FunctionIdentifier

namespace CallStack

def new : CallStack := ⟨[], ∅⟩

def depth (cs : CallStack) : Nat := cs.stack.length

def contains (cs : CallStack) (function : FunctionIdentifier) : Bool := decide (function ∈ cs.set)

def insert (cs : CallStack) (function : FunctionIdentifier) (track : Bool) : CallStack :=
  ⟨function :: cs.stack, if track then Insert.insert function cs.set else cs.set⟩

/-- `CallStack::remove`. The pop comes before the comparison, so a mismatch
leaves the stack one shorter; `none` is the panic of a tracked function
missing from the set. -/
def remove (cs : CallStack) (function : FunctionIdentifier) (tracked : Bool) :
    Option (CallStack × Except ClarityError Unit) :=
  match cs.stack with
  | removed :: stack =>
    if removed ≠ function then
      some (⟨stack, cs.set⟩, .error (.interpreter (.interpreterError "Tried to remove item from empty call stack.")))
    else if tracked && !decide (function ∈ cs.set) then none
    else some (⟨stack, if tracked then cs.set.erase function else cs.set⟩, .ok ())
  | [] => some (cs, .error (.interpreter (.interpreterError "Tried to remove item from empty call stack.")))

end CallStack

/-- `LocalContext`: its own bindings, and those of the context it extends. -/
structure LocalContext where
  parent : Option LocalContext
  «variables» : List (ClarityName × Value)
  callableContracts : List (ClarityName × (QualifiedContractIdentifier × TraitIdentifier))
  depth : Nat

namespace LocalContext

def new : LocalContext := ⟨none, [], [], 0⟩

def lookupVariable : LocalContext → ClarityName → Option Value
  | ⟨parent, vars, _, _⟩, name =>
    match vars.lookup name with
    | some value => some value
    | none =>
      match parent with
      | some parent => parent.lookupVariable name
      | none => none

end LocalContext

structure DefinedFunction where
  identifier : FunctionIdentifier
  name : ClarityName
  argTypes : List TypeSignature
  defineType : DefineType
  arguments : List ClarityName
  body : SymbolicExpression

/-- The part of `ContractContext` that evaluation reads. -/
structure ContractContext where
  «variables» : List (ClarityName × Value)
  functions : List (ClarityName × DefinedFunction)

inductive NativeHandle where
  | singleArg (function : Value → Except ClarityError Value)
  | doubleArg (function : Value → Value → Except ClarityError Value)
  | moreArg (function : List Value → Except ClarityError Value)

/-- `NativeHandle::apply`, with `check_argument_count` for the fixed arities. -/
def NativeHandle.apply : NativeHandle → List Value → Except ClarityError Value
  | singleArg function, [first] => function first
  | singleArg _, args => .error (.unchecked (.incorrectArgumentCount 1 args.length))
  | doubleArg function, [first, second] => function first second
  | doubleArg _, args => .error (.unchecked (.incorrectArgumentCount 2 args.length))
  | moreArg function, args => function args

/-- The special functions the model keeps. -/
inductive SpecialFunction where
  | «if»
  | asserts
  deriving DecidableEq, Repr

inductive CallableType where
  | userFunction (function : DefinedFunction)
  | nativeFunction (name : String) (function : NativeHandle) (cost : SimpleCostSpecification)
  | specialFunction (name : String) (function : SpecialFunction)

def CallableType.getIdentifier : CallableType → FunctionIdentifier
  | userFunction f => f.identifier
  | nativeFunction s _ _ => .newNativeFunction s
  | specialFunction s _ => .newNativeFunction s

/-- `native_begin`: the last argument. -/
def nativeBegin (args : List Value) : Except ClarityError Value :=
  match args.getLast? with
  | some v => .ok v
  | none => .error (.unchecked (.requiresAtLeastArguments 1 0))

/-- `lookup_reserved_functions`, for the functions the model keeps. -/
def lookupReservedFunctions (name : ClarityName) : Option CallableType :=
  if name.bytes = ascii "if" then some (.specialFunction "special_if" .if)
  else if name.bytes = ascii "asserts!" then some (.specialFunction "special_asserts" .asserts)
  else if name.bytes = ascii "begin" then
    some (.nativeFunction "native_begin" (.moreArg nativeBegin) costFunctions.BEGIN)
  else none

inductive NativeVariables where
  | contractCaller
  | txSender
  | blockHeight
  | burnBlockHeight
  | nativeNone
  | nativeTrue
  | nativeFalse
  deriving DecidableEq, Repr

namespace NativeVariables

def ALL : List NativeVariables :=
  [contractCaller, txSender, blockHeight, burnBlockHeight, nativeNone, nativeTrue, nativeFalse]

def getName : NativeVariables → String
  | contractCaller => "contract-caller"
  | txSender => "tx-sender"
  | blockHeight => "block-height"
  | burnBlockHeight => "burn-block-height"
  | nativeNone => "none"
  | nativeTrue => "true"
  | nativeFalse => "false"

def lookupByName (name : List UInt8) : Option NativeVariables :=
  ALL.find? fun v => ascii v.getName == name

end NativeVariables

def MAX_CALL_STACK_DEPTH : Nat := 64

structure Environment where
  callStack : CallStack
  costTrack : LimitedCostTracker
  contractContext : ContractContext
  sender : Option Value
  caller : Option Value
  /-- What `get_current_block_height` reads from the database. -/
  blockHeight : Nat

/-- A step of evaluation on the environment. -/
abbrev EvalM (α : Type) : Type := StateResult Environment ClarityError α

/-- `runtime_cost!`: compute the charge, then add it to the tracker. -/
def runtimeCost (spec : SimpleCostSpecification) (input : Nat) : EvalM Unit := fun env =>
  match spec.computeCost input with
  | .error e => some (.error (.ofCostErrors e), env)
  | .ok cost =>
    let added := env.costTrack.addCost cost
    some (added.2.mapError .ofCostErrors, { env with costTrack := added.1 })

def addMemory (memory : Nat) : EvalM Unit := fun env =>
  let added := env.costTrack.addMemory memory
  some (added.2.mapError .ofCostErrors, { env with costTrack := added.1 })

def dropMemory (memory : Nat) : EvalM Unit := fun env =>
  (env.costTrack.dropMemory memory).map fun costTrack => (.ok (), { env with costTrack })

def callStackInsert (function : FunctionIdentifier) (track : Bool) : EvalM Unit := fun env =>
  some (.ok (), { env with callStack := env.callStack.insert function track })

def callStackRemove (function : FunctionIdentifier) (tracked : Bool) : EvalM Unit := fun env =>
  (env.callStack.remove function tracked).map fun (callStack, removed) => (removed, { env with callStack })

/-- The text of a name, which is ASCII. -/
def nameString (name : ClarityName) : String := String.ofList (name.bytes.map fun b => Char.ofNat b.toNat)

/-- `lookup_reserved_variable`. -/
def lookupReservedVariable (name : ClarityName) : EvalM (Option Value) := do
  let env ← get
  match NativeVariables.lookupByName name.bytes with
  | some .txSender =>
    match env.sender with
    | some sender => pure (some sender)
    | none => throw (.runtime .noSenderInContext)
  | some .contractCaller =>
    match env.caller with
    | some caller => pure (some caller)
    | none => throw (.runtime .noSenderInContext)
  | some .blockHeight => pure (some (.uInt (BitVec.ofNat 128 env.blockHeight)))
  | some .burnBlockHeight => throw (.runtime .notImplemented)
  | some .nativeNone => pure (some Value.none)
  | some .nativeTrue => pure (some (.bool true))
  | some .nativeFalse => pure (some (.bool false))
  | none => pure none

/-- `lookup_variable`. -/
def lookupVariable (name : ClarityName) (context : LocalContext) : EvalM Value := do
  if name.bytes.head?.any fun c => isAsciiDigit c || c == 39 then
    throw (.interpreter (.badSymbolicRepresentation ("Unexpected variable name: " ++ nameString name)))
  else
    match ← lookupReservedVariable name with
    | some value => pure value
    | none =>
      runtimeCost costFunctions.LOOKUP_VARIABLE_DEPTH context.depth
      let env ← get
      match context.lookupVariable name <|> env.contractContext.«variables».lookup name with
      | some value =>
        runtimeCost costFunctions.LOOKUP_VARIABLE_SIZE (← expect value.size)
        pure value
      | none =>
        match context.callableContracts.lookup name with
        | some (contractIdentifier, _) => pure (.principal (.contract contractIdentifier))
        | none => throw (.unchecked (.undefinedVariable name))

/-- `lookup_function`. -/
def lookupFunction (name : ClarityName) : EvalM CallableType := do
  runtimeCost costFunctions.LOOKUP_FUNCTION 0
  match lookupReservedFunctions name with
  | some result => pure result
  | none =>
    let env ← get
    match env.contractContext.functions.lookup name with
    | some userFunction => pure (.userFunction userFunction)
    | none => throw (.unchecked (.undefinedFunction name))

/-- `TypeSignature::size`, which panics where `inner_size` fails. -/
def typeSize (t : TypeSignature) : EvalM Nat :=
  match (t.size : Outcome Unit Nat) with
  | .ok size => pure size
  | _ => panic

/-- One argument of `execute_apply`: a trait reference to a contract is kept
as a callable contract, any other value must be admitted by its type and
bound to a fresh name. -/
def bindArgument (context : LocalContext) : (ClarityName × TypeSignature) × Value → EvalM LocalContext
  | ((name, .traitReferenceType traitIdentifier), .principal (.contract calleeContractId)) =>
    pure { context with callableContracts := (name, (calleeContractId, traitIdentifier)) :: context.callableContracts }
  | ((name, typeSig), value) => do
    if !(← expect (typeSig.admits value)) then throw (.typeValueError typeSig value)
    else if (context.«variables».lookup name).isSome then throw (.unchecked (.nameAlreadyUsed name))
    else pure { context with «variables» := (name, value) :: context.«variables» }

mutual

/-- `eval`. -/
def eval : Nat → SymbolicExpression → LocalContext → EvalM Value
  | 0, _, _ => panic
  | _ + 1, .atomValue value, _ => pure value
  | _ + 1, .literalValue value, _ => pure value
  | _ + 1, .atom value, context => lookupVariable value context
  | fuel + 1, .list children, context =>
    match children with
    | [] => throw (.unchecked .nonFunctionApplication)
    | functionVariable :: rest =>
      match functionVariable.matchAtom with
      | none => throw (.unchecked .badFunctionName)
      | some functionName => do
        let f ← lookupFunction functionName
        apply fuel f rest context
  | _ + 1, .traitReference _, _ => panic
  | _ + 1, .field _, _ => panic

/-- `apply`. The identifier is pushed before the arguments are evaluated and
popped on each way out, except after a failed charge of a native's cost,
whose `?` returns at once. -/
def apply : Nat → CallableType → List SymbolicExpression → LocalContext → EvalM Value
  | 0, _, _, _ => panic
  | fuel + 1, function, args, context => do
    let identifier := function.getIdentifier
    let trackRecursion := match function with
      | .userFunction _ => true
      | _ => false
    let env ← get
    if trackRecursion && env.callStack.contains identifier then
      throw (.unchecked (.circularReference [identifier.identifier]))
    else if env.callStack.depth ≥ MAX_CALL_STACK_DEPTH then throw (.runtime .maxStackDepthReached)
    else
      match function with
      | .specialFunction _ special => do
        callStackInsert identifier trackRecursion
        let resp ← attempt (applySpecial fuel special args context)
        callStackRemove identifier trackRecursion
        ofExcept resp
      | _ => do
        callStackInsert identifier trackRecursion
        match ← evalArguments fuel args context 0 [] with
        | .error (usedMemory, e) => do
          dropMemory usedMemory
          callStackRemove identifier trackRecursion
          throw e
        | .ok (usedMemory, evaluatedArgs) => do
          let resp ← match function with
            | .nativeFunction _ function costFunction => do
              runtimeCost costFunction evaluatedArgs.length
              pure (function.apply evaluatedArgs)
            | .userFunction function => attempt (executeApply fuel function evaluatedArgs)
            | .specialFunction _ _ => panic
          dropMemory usedMemory
          callStackRemove identifier trackRecursion
          ofExcept resp

/-- The argument loop of `apply`: each argument is evaluated and its memory
added. It returns the arguments and the memory they use, or the error that
stopped it with the memory added before it, which `apply` then drops. -/
def evalArguments : Nat → List SymbolicExpression → LocalContext → Nat → List Value →
    EvalM (Except (Nat × ClarityError) (Nat × List Value))
  | 0, _, _, _, _ => panic
  | _ + 1, [], _, usedMemory, evaluatedArgs => pure (.ok (usedMemory, evaluatedArgs))
  | fuel + 1, arg :: rest, context, usedMemory, evaluatedArgs => do
    match ← attempt (eval fuel arg context) with
    | .error e => pure (.error (usedMemory, e))
    | .ok argValue => do
      let argUse ← expect argValue.size
      match ← attempt (addMemory argUse) with
      | .error e => pure (.error (usedMemory, e))
      | .ok () => evalArguments fuel rest context (usedMemory + argUse) (evaluatedArgs ++ [argValue])

/-- `special_if` and `special_asserts`. -/
def applySpecial : Nat → SpecialFunction → List SymbolicExpression → LocalContext → EvalM Value
  | 0, _, _, _ => panic
  | fuel + 1, .if, args, context =>
    match args with
    | [condition, thenBranch, elseBranch] => do
      runtimeCost costFunctions.IF 0
      let conditional ← eval fuel condition context
      match conditional with
      | .bool true => eval fuel thenBranch context
      | .bool false => eval fuel elseBranch context
      | _ => throw (.typeValueError .boolType conditional)
    | _ => throw (.unchecked (.incorrectArgumentCount 3 args.length))
  | fuel + 1, .asserts, args, context =>
    match args with
    | [condition, thrown] => do
      runtimeCost costFunctions.ASSERTS 0
      let conditional ← eval fuel condition context
      match conditional with
      | .bool true => pure conditional
      | .bool false => do
        let thrown ← eval fuel thrown context
        throw (.shortReturn (.assertionFailed thrown))
      | _ => throw (.typeValueError .boolType conditional)
    | _ => throw (.unchecked (.incorrectArgumentCount 2 args.length))

/-- `DefinedFunction::execute_apply`: charge, bind the arguments in a new
context, evaluate the body, and turn a short return into its value. -/
def executeApply : Nat → DefinedFunction → List Value → EvalM Value
  | 0, _, _ => panic
  | fuel + 1, function, args => do
    runtimeCost costFunctions.USER_FUNCTION_APPLICATION function.arguments.length
    for argType in function.argTypes do
      runtimeCost costFunctions.INNER_TYPE_CHECK_COST (← typeSize argType)
    if args.length ≠ function.arguments.length then
      throw (.unchecked (.incorrectArgumentCount function.arguments.length args.length))
    else
      let context ← ((function.arguments.zip function.argTypes).zip args).foldlM bindArgument LocalContext.new
      match ← attempt (eval fuel function.body context) with
      | .ok r => pure r
      | .error (.shortReturn v) => pure v.value
      | .error e => throw e

end

/-! ### What each step does to the call stack -/

namespace CallStack

theorem remove_eq_some {cs cs' : CallStack} {function : FunctionIdentifier} {tracked : Bool}
    {r : Except ClarityError Unit} (h : cs.remove function tracked = some (cs', r)) :
    cs'.stack = cs.stack.tail ∧ (cs'.set = cs.set ∨ tracked = true ∧ cs'.set = cs.set.erase function) := by
  unfold remove at h
  split at h
  · rename_i removed stack hstack
    rw [hstack]
    split at h
    · cases h
      exact ⟨rfl, .inl rfl⟩
    · split at h
      · cases h
      · cases h
        cases tracked
        · exact ⟨rfl, .inl rfl⟩
        · exact ⟨rfl, .inr ⟨rfl, rfl⟩⟩
  · rename_i hstack
    cases h
    exact ⟨by rw [hstack]; rfl, .inl rfl⟩

end CallStack

section Primitives

/-- A step that leaves the call stack as it is and only adds to the memory
counter. -/
def Frames (env env' : Environment) : Prop :=
  env'.callStack = env.callStack ∧ env.costTrack.memory ≤ env'.costTrack.memory

theorem Frames.refl (env : Environment) : Frames env env := ⟨rfl, Nat.le_refl _⟩

theorem Frames.trans ⦃env₁ env₂ env₃ : Environment⦄ (h₁ : Frames env₁ env₂) (h₂ : Frames env₂ env₃) :
    Frames env₁ env₃ :=
  ⟨h₂.1.trans h₁.1, Nat.le_trans h₁.2 h₂.2⟩

variable {clean : ClarityError → Prop}

theorem runtimeCost_frames (spec : SimpleCostSpecification) (input : Nat) :
    Keeps Frames clean (runtimeCost spec input) := by
  intro env r env' h _
  unfold runtimeCost at h
  split at h
  · cases h
    exact Frames.refl env
  · cases h
    exact ⟨rfl, Nat.le_of_eq (LimitedCostTracker.addCost_memory _ _).symm⟩

theorem dropMemory_eq_some {memory : Nat} {env env' : Environment} {r : Except ClarityError Unit}
    (h : dropMemory memory env = some (r, env')) :
    r = .ok () ∧ memory ≤ env.costTrack.memory ∧ env'.callStack = env.callStack ∧
      env'.costTrack.memory = env.costTrack.memory - memory := by
  unfold dropMemory at h
  cases hdrop : env.costTrack.dropMemory memory with
  | none => rw [hdrop] at h; cases h
  | some costTrack =>
    rw [hdrop] at h
    cases h
    obtain ⟨hle, rfl⟩ := LimitedCostTracker.dropMemory_eq_some hdrop
    exact ⟨rfl, hle, rfl, rfl⟩

theorem lookupReservedVariable_frames (name : ClarityName) :
    Keeps Frames clean (lookupReservedVariable name) := by
  unfold lookupReservedVariable
  refine Keeps.bind Frames.trans (Keeps.get Frames.refl) fun env => ?_
  split
  all_goals (try split)
  all_goals first
    | exact Keeps.pure Frames.refl _
    | exact Keeps.throw Frames.refl _

theorem lookupVariable_frames (name : ClarityName) (context : LocalContext) :
    Keeps Frames clean (lookupVariable name context) := by
  unfold lookupVariable
  refine Keeps.ite (Keeps.throw Frames.refl _) ?_
  refine Keeps.bind Frames.trans (lookupReservedVariable_frames name) fun reserved => ?_
  split
  · exact Keeps.pure Frames.refl _
  · refine Keeps.bind Frames.trans (runtimeCost_frames _ _) fun _ => ?_
    refine Keeps.bind Frames.trans (Keeps.get Frames.refl) fun env => ?_
    split
    · refine Keeps.bind Frames.trans (Keeps.expect Frames.refl _) fun size => ?_
      exact Keeps.bind Frames.trans (runtimeCost_frames _ _) fun _ => Keeps.pure Frames.refl _
    · split
      · exact Keeps.pure Frames.refl _
      · exact Keeps.throw Frames.refl _

theorem lookupFunction_frames (name : ClarityName) : Keeps Frames clean (lookupFunction name) := by
  unfold lookupFunction
  refine Keeps.bind Frames.trans (runtimeCost_frames _ _) fun _ => ?_
  split
  · exact Keeps.pure Frames.refl _
  · refine Keeps.bind Frames.trans (Keeps.get Frames.refl) fun env => ?_
    split
    · exact Keeps.pure Frames.refl _
    · exact Keeps.throw Frames.refl _

theorem typeSize_frames (t : TypeSignature) : Keeps Frames clean (typeSize t) := by
  unfold typeSize
  split
  · exact Keeps.pure Frames.refl _
  · exact Keeps.panic

theorem bindArgument_frames (context : LocalContext) (arg : (ClarityName × TypeSignature) × Value) :
    Keeps Frames clean (bindArgument context arg) := by
  unfold bindArgument
  split
  · exact Keeps.pure Frames.refl _
  · refine Keeps.bind Frames.trans (Keeps.expect Frames.refl _) fun admitted => ?_
    exact Keeps.ite (Keeps.throw Frames.refl _) (Keeps.ite (Keeps.throw Frames.refl _) (Keeps.pure Frames.refl _))

/-- What `execute_apply` does before it evaluates the body: charge, check the
count and bind the arguments. -/
theorem executeApply_prefix_frames (function : DefinedFunction) :
    Keeps Frames clean (forIn function.argTypes PUnit.unit fun argType _ => do
      runtimeCost costFunctions.INNER_TYPE_CHECK_COST (← typeSize argType)
      pure (ForInStep.yield PUnit.unit)) := by
  refine Keeps.forIn Frames.refl Frames.trans (fun argType _ => ?_) _ _
  refine Keeps.bind Frames.trans (typeSize_frames argType) fun size => ?_
  exact Keeps.bind Frames.trans (runtimeCost_frames _ _) fun _ => Keeps.pure Frames.refl _

theorem foldlM_bindArgument_frames (args : List ((ClarityName × TypeSignature) × Value)) (context : LocalContext) :
    Keeps Frames clean (args.foldlM bindArgument context) :=
  Keeps.foldlM Frames.refl Frames.trans (fun context arg => bindArgument_frames context arg) args context

end Primitives

/-! ### Every run: the entries found stay, and nothing found is forgotten -/

section Runs

/-- What every run of evaluation does to the call stack and the memory: the
entries it found stay at the bottom of the stack, no tracked function it found
leaves the set, and the memory counter does not go down. -/
structure Extends (env env' : Environment) : Prop where
  stack : env.callStack.stack <:+ env'.callStack.stack
  set : env.callStack.set ⊆ env'.callStack.set
  memory : env.costTrack.memory ≤ env'.costTrack.memory

theorem Extends.refl (env : Environment) : Extends env env :=
  ⟨List.suffix_refl _, Finset.Subset.refl _, Nat.le_refl _⟩

theorem Extends.trans ⦃env₁ env₂ env₃ : Environment⦄ (h₁ : Extends env₁ env₂) (h₂ : Extends env₂ env₃) :
    Extends env₁ env₃ :=
  ⟨h₁.stack.trans h₂.stack, h₁.set.trans h₂.set, Nat.le_trans h₁.memory h₂.memory⟩

theorem Extends.of_frames {env env' : Environment} (h : Frames env env') : Extends env env' :=
  ⟨by rw [h.1], by rw [h.1], h.2⟩

variable {clean : ClarityError → Prop}

/-- A step that leaves the call stack alone keeps `Extends`. -/
theorem Extends.keeps {α : Type} {x : EvalM α} (hx : Keeps Frames clean x) : Keeps Extends clean x :=
  Keeps.mono hx fun _ _ => Extends.of_frames

theorem suffix_tail_of_cons_suffix {α : Type} {a : α} {l l' : List α} (h : a :: l <:+ l') : l <:+ l'.tail := by
  obtain ⟨p, rfl⟩ := h
  cases p with
  | nil => exact List.suffix_refl l
  | cons b p => exact List.suffix_append_of_suffix (List.suffix_cons a l)

/-- A pop after a run that kept what was pushed: whether or not the popped
entry is the pushed one, the entries found before the push stay, and a
tracked function that was not in the set is the only one that can leave it. -/
theorem Extends.remove {env env₁ : Environment} {function : FunctionIdentifier} {track : Bool}
    {cs : CallStack} {r : Except ClarityError Unit} (hfresh : track = true → function ∉ env.callStack.set)
    (hrun : Extends { env with callStack := env.callStack.insert function track } env₁)
    (hremove : env₁.callStack.remove function track = some (cs, r)) :
    Extends env { env₁ with callStack := cs } := by
  obtain ⟨hstack, hset⟩ := CallStack.remove_eq_some hremove
  have hinsert : env.callStack.set ⊆ env₁.callStack.set := by
    refine Finset.Subset.trans ?_ hrun.set
    cases track
    · exact Finset.Subset.refl _
    · exact Finset.subset_insert _ _
  refine ⟨?_, ?_, hrun.memory⟩
  · rw [hstack]
    exact suffix_tail_of_cons_suffix hrun.stack
  · rcases hset with hset | ⟨rfl, hset⟩
    · exact hset ▸ hinsert
    · intro x hx
      rw [hset, Finset.mem_erase]
      exact ⟨fun h => hfresh rfl (h ▸ hx), hinsert hx⟩

theorem addMemory_eq_some {memory : Nat} {env env' : Environment} {r : Except ClarityError Unit}
    (h : addMemory memory env = some (r, env')) :
    env'.callStack = env.callStack ∧ env.costTrack.memory ≤ env'.costTrack.memory ∧
      (r = .ok () → env'.costTrack.memory = env.costTrack.memory + memory) := by
  cases h
  obtain ⟨hle, hok⟩ := LimitedCostTracker.addMemory_memory env.costTrack memory
  refine ⟨rfl, hle, fun hr => hok ?_⟩
  cases hadd : (env.costTrack.addMemory memory).2 with
  | ok u => rfl
  | error e => rw [hadd] at hr; cases hr

theorem Extends.insert (env : Environment) (function : FunctionIdentifier) (track : Bool) :
    Extends env { env with callStack := env.callStack.insert function track } := by
  refine ⟨List.suffix_cons _ _, ?_, Nat.le_refl _⟩
  cases track
  · exact Finset.Subset.refl _
  · exact Finset.subset_insert _ _

/-- A drop of memory that an earlier run added keeps `Extends`. -/
theorem Extends.dropMemory {env₁ env₂ env₃ : Environment} {used : Nat} {r : Except ClarityError Unit}
    (h : Extends env₁ env₂) (hused : env₁.costTrack.memory + used ≤ env₂.costTrack.memory)
    (hdrop : dropMemory used env₂ = some (r, env₃)) : Extends env₁ env₃ := by
  obtain ⟨-, -, hstack, hmemory⟩ := dropMemory_eq_some hdrop
  exact ⟨hstack ▸ h.stack, hstack ▸ h.set, by omega⟩

/-- The memory that the argument loop reports as added. -/
def usedMemory : Except (Nat × ClarityError) (Nat × List Value) → Nat
  | .ok (used, _) => used
  | .error (used, _) => used

/-- What every run of the evaluator on `fuel` keeps; the argument loop also
accounts for the memory it reports. -/
structure RunsExtend (fuel : Nat) : Prop where
  eval : ∀ e context, Keeps Extends (fun _ => True) (eval fuel e context)
  apply : ∀ function args context, Keeps Extends (fun _ => True) (apply fuel function args context)
  evalArguments : ∀ args context used evaluatedArgs env r env',
    evalArguments fuel args context used evaluatedArgs env = some (r, env') →
      Extends env env' ∧ ∀ out, r = .ok out →
        used ≤ usedMemory out ∧ env.costTrack.memory + usedMemory out ≤ env'.costTrack.memory + used
  applySpecial : ∀ special args context, Keeps Extends (fun _ => True) (applySpecial fuel special args context)
  executeApply : ∀ function args, Keeps Extends (fun _ => True) (executeApply fuel function args)

theorem runsExtend_zero : RunsExtend 0 where
  eval _ _ := Keeps.panic
  apply _ _ _ := Keeps.panic
  evalArguments _ _ _ _ _ _ _ h := by cases h
  applySpecial _ _ _ := Keeps.panic
  executeApply _ _ := Keeps.panic

theorem callStackInsert_apply (function : FunctionIdentifier) (track : Bool) (env : Environment) :
    callStackInsert function track env = some (.ok (), { env with callStack := env.callStack.insert function track }) :=
  rfl

theorem callStackRemove_eq_some {function : FunctionIdentifier} {track : Bool} {env env' : Environment}
    {r : Except ClarityError Unit} (h : callStackRemove function track env = some (r, env')) :
    ∃ cs, env.callStack.remove function track = some (cs, r) ∧ env' = { env with callStack := cs } := by
  unfold callStackRemove at h
  cases hcs : env.callStack.remove function track with
  | none => simp [hcs] at h
  | some p =>
    obtain ⟨cs, removed⟩ := p
    simp only [hcs, Option.map_some, Option.some.injEq, Prod.mk.injEq] at h
    obtain ⟨rfl, rfl⟩ := h
    exact ⟨cs, rfl, rfl⟩

/-- The last step of `apply`: pop, then return the response unless the pop
failed. -/
theorem callStackRemove_ofExcept_eq_some {function : FunctionIdentifier} {track : Bool} {α : Type}
    {resp r : Except ClarityError α} {env env' : Environment}
    (h : (callStackRemove function track >>= fun _ => ofExcept resp) env = some (r, env')) :
    ∃ cs removed, env.callStack.remove function track = some (cs, removed) ∧
      env' = { env with callStack := cs } ∧ r = (removed.bind fun _ => resp) := by
  rcases bind_eq_some h with ⟨e, hremove, rfl⟩ | ⟨u, env₁, hremove, hresp⟩
  · obtain ⟨cs, hcs, rfl⟩ := callStackRemove_eq_some hremove
    exact ⟨cs, .error e, hcs, rfl, rfl⟩
  · obtain ⟨cs, hcs, rfl⟩ := callStackRemove_eq_some hremove
    cases hresp
    exact ⟨cs, .ok u, hcs, rfl, rfl⟩

/-- The way out of `apply` after a native or user function: drop the memory
of the arguments, pop, and return the response unless the pop failed. -/
theorem Extends.dropThenRemove {env env₂ env' : Environment} {function : FunctionIdentifier} {track : Bool}
    {used : Nat} {resp r : Except ClarityError Value} (hfresh : track = true → function ∉ env.callStack.set)
    (hrun : Extends { env with callStack := env.callStack.insert function track } env₂)
    (hused : env.costTrack.memory + used ≤ env₂.costTrack.memory)
    (h : (Interpreter.dropMemory used >>= fun _ => callStackRemove function track >>= fun _ => ofExcept resp) env₂ =
      some (r, env')) :
    Extends env env' := by
  rcases bind_eq_some h with ⟨e, hdrop, -⟩ | ⟨u, env₃, hdrop, hrest⟩
  · obtain ⟨hok, -⟩ := dropMemory_eq_some hdrop
    cases hok
  have hext₃ := Extends.dropMemory hrun hused hdrop
  obtain ⟨cs, removed, hremove, rfl, -⟩ := callStackRemove_ofExcept_eq_some hrest
  exact Extends.remove hfresh hext₃ hremove

/-- The response of a native or user function and the way out after it. A
response that fails (the charge of a native's cost) returns at once, with
the identifier still pushed. -/
theorem Extends.respond {env env₂ env' : Environment} {function : FunctionIdentifier} {track : Bool}
    {used : Nat} {x : EvalM (Except ClarityError Value)} {r : Except ClarityError Value}
    (hfresh : track = true → function ∉ env.callStack.set)
    (hrun : Extends { env with callStack := env.callStack.insert function track } env₂)
    (hused : env.costTrack.memory + used ≤ env₂.costTrack.memory) (hx : Keeps Extends (fun _ => True) x)
    (h : (x >>= fun resp => Interpreter.dropMemory used >>= fun _ => callStackRemove function track >>= fun _ =>
      ofExcept resp) env₂ = some (r, env')) :
    Extends env env' := by
  rcases bind_eq_some h with ⟨e, hresp, rfl⟩ | ⟨resp, env₃, hresp, hrest⟩
  · exact (Extends.insert env function track).trans (hrun.trans (hx _ _ _ hresp fun _ _ => trivial))
  have hext₃ := hx _ _ _ hresp fun _ _ => trivial
  exact Extends.dropThenRemove hfresh (hrun.trans hext₃) (Nat.le_trans hused hext₃.memory) hrest

section Step

variable {fuel : Nat} (ih : RunsExtend fuel)
include ih

theorem RunsExtend.apply_succ (function : CallableType) (args : List SymbolicExpression) (context : LocalContext) :
    Keeps Extends (fun _ => True) (Interpreter.apply (fuel + 1) function args context) := by
  intro env r env' h _
  simp only [Interpreter.apply] at h
  rw [bind_of_ok (get_apply env)] at h
  generalize (match function with
    | .userFunction _ => true
    | _ => false) = track at h
  split at h
  · -- a tracked function already applied: `CircularReference`
    cases h
    exact Extends.refl env
  split at h
  · -- `MaxStackDepthReached`
    cases h
    exact Extends.refl env
  rename_i hnotrec _
  -- past the recursion check, a tracked function is not in the set
  have hfresh : track = true → function.getIdentifier ∉ env.callStack.set := by
    intro htrack hmem
    simp [htrack, CallStack.contains, hmem] at hnotrec
  split at h
  · -- a special function evaluates its arguments itself, between push and pop
    rw [bind_of_ok (callStackInsert_apply _ _ env)] at h
    rcases bind_eq_some h with ⟨e, hattempt, -⟩ | ⟨resp, env₂, hattempt, hrest⟩
    · obtain ⟨_, -, hcaught⟩ := attempt_eq_some hattempt
      cases hcaught
    obtain ⟨resp', hspecial, hcaught⟩ := attempt_eq_some hattempt
    cases hcaught
    obtain ⟨cs, removed, hremove, rfl, -⟩ := callStackRemove_ofExcept_eq_some hrest
    exact Extends.remove hfresh (ih.applySpecial _ _ _ _ _ _ hspecial fun _ _ => trivial) hremove
  · -- a native or user function: push, evaluate the arguments, respond, drop, pop
    rw [bind_of_ok (callStackInsert_apply _ _ env)] at h
    rcases bind_eq_some h with ⟨e, hargs, rfl⟩ | ⟨out, env₂, hargs, hrest⟩
    · exact (Extends.insert env _ _).trans (ih.evalArguments _ _ _ _ _ _ _ hargs).1
    obtain ⟨hext₂, hused⟩ := ih.evalArguments _ _ _ _ _ _ _ hargs
    obtain ⟨-, hmemory⟩ := hused out rfl
    split at hrest
    · exact Extends.dropThenRemove hfresh hext₂ (by simpa [usedMemory] using hmemory) hrest
    · split at hrest
      · -- a native: a failed charge returns at once, past the drop and the pop
        rcases bind_eq_some hrest with ⟨e, hcharge, rfl⟩ | ⟨u, env₃, hcharge, hrest₂⟩
        · exact (Extends.insert env _ _).trans
            (hext₂.trans (Extends.keeps (runtimeCost_frames _ _) _ _ _ hcharge fun _ _ => trivial))
        have hext₃ := Extends.keeps (runtimeCost_frames _ _) _ _ _ hcharge fun _ _ => trivial
        rw [bind_of_ok (pure_apply _ env₃)] at hrest₂
        exact Extends.dropThenRemove hfresh (hext₂.trans hext₃)
          (Nat.le_trans (by simpa [usedMemory] using hmemory) hext₃.memory) hrest₂
      · exact Extends.respond hfresh hext₂ (by simpa [usedMemory] using hmemory)
          (Keeps.attempt (ih.executeApply _ _)) hrest
      · exact Extends.respond hfresh hext₂ (by simpa [usedMemory] using hmemory) Keeps.panic hrest

theorem RunsExtend.evalArguments_succ (args : List SymbolicExpression) (context : LocalContext)
    (used : Nat) (evaluatedArgs : List Value) {env env' : Environment}
    {r : Except ClarityError (Except (Nat × ClarityError) (Nat × List Value))}
    (h : Interpreter.evalArguments (fuel + 1) args context used evaluatedArgs env = some (r, env')) :
    Extends env env' ∧ ∀ out, r = .ok out →
      used ≤ usedMemory out ∧ env.costTrack.memory + usedMemory out ≤ env'.costTrack.memory + used := by
  cases args with
  | nil =>
    simp only [Interpreter.evalArguments, pure_apply, Option.some.injEq, Prod.mk.injEq] at h
    obtain ⟨rfl, rfl⟩ := h
    exact ⟨Extends.refl env, fun out hout => by cases hout; exact ⟨Nat.le_refl _, Nat.le_refl _⟩⟩
  | cons arg rest =>
    simp only [Interpreter.evalArguments] at h
    rcases bind_eq_some h with ⟨e, hattempt, -⟩ | ⟨result, env₁, hattempt, hnext⟩
    · obtain ⟨_, -, hcaught⟩ := attempt_eq_some hattempt
      cases hcaught
    obtain ⟨result', heval, hcaught⟩ := attempt_eq_some hattempt
    cases hcaught
    have hext₁ : Extends env env₁ := ih.eval arg context env _ env₁ heval fun _ _ => trivial
    cases result with
    | error e =>
      -- the argument failed: the loop stops and reports what it had added
      simp only [pure_apply, Option.some.injEq, Prod.mk.injEq] at hnext
      obtain ⟨rfl, rfl⟩ := hnext
      refine ⟨hext₁, fun out hout => ?_⟩
      cases hout
      exact ⟨Nat.le_refl _, by simp only [usedMemory]; have := hext₁.memory; omega⟩
    | ok argValue =>
      rcases bind_eq_some hnext with ⟨e, hexpect, -⟩ | ⟨argUse, env₂, hexpect, hnext₂⟩
      · obtain ⟨_, -, hr, -⟩ := expect_eq_some hexpect
        cases hr
      obtain ⟨_, -, hr, rfl⟩ := expect_eq_some hexpect
      cases hr
      rcases bind_eq_some hnext₂ with ⟨e, hattempt₂, -⟩ | ⟨added, env₃, hattempt₂, hnext₃⟩
      · obtain ⟨_, -, hcaught⟩ := attempt_eq_some hattempt₂
        cases hcaught
      obtain ⟨added', hadd, hcaught⟩ := attempt_eq_some hattempt₂
      cases hcaught
      obtain ⟨hstack₃, hmemory₃, hok₃⟩ := addMemory_eq_some hadd
      have hext₃ : Extends env₂ env₃ := Extends.of_frames ⟨hstack₃, hmemory₃⟩
      cases added with
      | error e =>
        -- the allocation was refused: it stays counted, and the loop stops
        simp only [pure_apply, Option.some.injEq, Prod.mk.injEq] at hnext₃
        obtain ⟨rfl, rfl⟩ := hnext₃
        refine ⟨hext₁.trans hext₃, fun out hout => ?_⟩
        cases hout
        exact ⟨Nat.le_refl _, by simp only [usedMemory]; have := hext₁.memory; omega⟩
      | ok u =>
        obtain ⟨hext', hrest⟩ := ih.evalArguments rest context _ _ env₃ r env' hnext₃
        refine ⟨hext₁.trans (hext₃.trans hext'), fun out hout => ?_⟩
        obtain ⟨hle, hmem⟩ := hrest out hout
        have hadded := hok₃ rfl
        have := hext₁.memory
        constructor <;> omega

theorem RunsExtend.eval_succ (e : SymbolicExpression) (context : LocalContext) :
    Keeps Extends (fun _ => True) (Interpreter.eval (fuel + 1) e context) := by
  cases e with
  | atomValue value => exact Keeps.pure Extends.refl _
  | literalValue value => exact Keeps.pure Extends.refl _
  | atom name => exact (Extends.keeps (lookupVariable_frames name context))
  | list children =>
    simp only [Interpreter.eval]
    split
    · exact Keeps.throw Extends.refl _
    · split
      · exact Keeps.throw Extends.refl _
      · exact Keeps.bind Extends.trans (Extends.keeps (lookupFunction_frames _)) fun f => ih.apply f _ context
  | traitReference _ => exact Keeps.panic
  | field _ => exact Keeps.panic

theorem RunsExtend.applySpecial_succ (special : SpecialFunction) (args : List SymbolicExpression)
    (context : LocalContext) : Keeps Extends (fun _ => True) (Interpreter.applySpecial (fuel + 1) special args context) := by
  cases special with
  | «if» =>
    simp only [Interpreter.applySpecial]
    split
    · refine Keeps.bind Extends.trans (Extends.keeps (runtimeCost_frames _ _)) fun _ => ?_
      refine Keeps.bind Extends.trans (ih.eval _ context) fun conditional => ?_
      split
      · exact ih.eval _ context
      · exact ih.eval _ context
      · exact Keeps.throw Extends.refl _
    · exact Keeps.throw Extends.refl _
  | asserts =>
    simp only [Interpreter.applySpecial]
    split
    · refine Keeps.bind Extends.trans (Extends.keeps (runtimeCost_frames _ _)) fun _ => ?_
      refine Keeps.bind Extends.trans (ih.eval _ context) fun conditional => ?_
      split
      · exact Keeps.pure Extends.refl _
      · exact Keeps.bind Extends.trans (ih.eval _ context) fun _ => Keeps.throw Extends.refl _
      · exact Keeps.throw Extends.refl _
    · exact Keeps.throw Extends.refl _

theorem RunsExtend.executeApply_succ (function : DefinedFunction) (args : List Value) :
    Keeps Extends (fun _ => True) (Interpreter.executeApply (fuel + 1) function args) := by
  simp only [Interpreter.executeApply]
  refine Keeps.bind Extends.trans (Extends.keeps (runtimeCost_frames _ _)) fun _ => ?_
  refine Keeps.bind Extends.trans (Extends.keeps (executeApply_prefix_frames function)) fun _ => ?_
  refine Keeps.ite (Keeps.throw Extends.refl _) ?_
  refine Keeps.bind Extends.trans (Extends.keeps (foldlM_bindArgument_frames _ _)) fun context => ?_
  refine Keeps.bind Extends.trans (Keeps.attempt (ih.eval _ context)) fun result => ?_
  split
  · exact Keeps.pure Extends.refl _
  · exact Keeps.pure Extends.refl _
  · exact Keeps.throw Extends.refl _

end Step

theorem RunsExtend.succ {fuel : Nat} (ih : RunsExtend fuel) : RunsExtend (fuel + 1) where
  eval := ih.eval_succ
  apply := ih.apply_succ
  evalArguments _ _ _ _ _ _ _ h := ih.evalArguments_succ _ _ _ _ h
  applySpecial := ih.applySpecial_succ
  executeApply := ih.executeApply_succ

/-- Every function of the evaluator keeps `Extends` at every fuel: the
induction is on the fuel, which each call lowers by one. -/
theorem runsExtend (fuel : Nat) : RunsExtend fuel := by
  induction fuel with
  | zero => exact runsExtend_zero
  | succ fuel ih => exact ih.succ

/-- `(if (begin true) 1 2)`. -/
def ifBeginTrue : SymbolicExpression :=
  .list [.atom ⟨ascii "if", by decide⟩, .list [.atom ⟨ascii "begin", by decide⟩, .atomValue (.bool true)],
    .atomValue (.int 1), .atomValue (.int 2)]

/-- An environment with an empty call stack and a runtime budget of `limit`. -/
def withRuntimeLimit (limit : Nat) : Environment :=
  ⟨CallStack.new, LimitedCostTracker.new ⟨0, 0, 0, 0, limit⟩, ⟨[], []⟩, none, none, 0⟩

example : (eval 10 ifBeginTrue LocalContext.new (withRuntimeLimit 100)).map
    (fun p => (p.1, p.2.callStack.stack)) = some (.ok (.int 1), []) := by
  decide +kernel

/-- With a runtime budget of 3, the charge of `begin` is refused after the
lookups of `if` and `begin` and the charge of `if`. The refusal leaves
`begin` on the stack, so the pop of `if` takes `begin` and fails: `eval`
returns an `InterpreterError` in place of the cost error, and `if` stays on
the stack. -/
theorem eval_if_replaces_cost_error :
    (eval 10 ifBeginTrue LocalContext.new (withRuntimeLimit 3)).map (fun p => (p.1, p.2.callStack.stack)) =
      some (.error (.interpreter (.interpreterError "Tried to remove item from empty call stack.")),
        [FunctionIdentifier.newNativeFunction "special_if"]) := by
  decide +kernel

end Runs

end Interpreter

end BlockstackCore
