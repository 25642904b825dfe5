import BlockstackCore.Vm.Contexts.AssetMap
import BlockstackCore.Vm.Database.Rollback

/-!
# Nested levels of a transaction

`GlobalContext` (`vm/contexts.rs`) keeps one entry per open level in each of
four stacks: the asset maps, the event batches, the read-only flags, and the
contexts of the database's rollback wrapper. `begin` and `begin_read_only`
push onto all four; `commit` and `roll_back` pop all four, and
`handle_tx_result` chooses between them from what a public function returned.

A stack is a list with its top first. A call that can panic returns an
`Option` whose `none` is the panic. A call that returns a `Result` also
returns the context after it, on the error path too, since its caller goes on
with that context. The cost tracker, the headers database and the evaluator
are left out: a function's `execute_apply` is a call on the context, given
with the function.
-/

namespace BlockstackCore

/-- `ClarityDatabase`, of which the model keeps the rollback wrapper. -/
structure ClarityDatabase (S : Type) where
  store : RollbackWrapper S

namespace ClarityDatabase

variable {S E : Type}

def begin (db : ClarityDatabase S) : ClarityDatabase S := ⟨db.store.nest⟩

def commit (st : ClarityBackingStore S E) (db : ClarityDatabase S) : Option (ClarityDatabase S) :=
  (db.store.commit st).toOption.map ClarityDatabase.mk

def rollBack (db : ClarityDatabase S) : Option (ClarityDatabase S) :=
  db.store.rollback.toOption.map ClarityDatabase.mk

end ClarityDatabase

structure GlobalContext (S Ev : Type) where
  assetMaps : List AssetMap
  eventBatches : List (EventBatch Ev)
  database : ClarityDatabase S
  readOnly : List Bool

namespace GlobalContext

variable {S E Ev : Type}

def new (database : ClarityDatabase S) : GlobalContext S Ev := ⟨[], [], database, []⟩

/-- The number of open levels. -/
def level (g : GlobalContext S Ev) : Nat := g.assetMaps.length

def isTopLevel (g : GlobalContext S Ev) : Bool := g.assetMaps.length == 0

/-- The top level context defaults to writable. -/
def isReadOnly (g : GlobalContext S Ev) : Bool := g.readOnly.head?.getD false

def begin (g : GlobalContext S Ev) : GlobalContext S Ev where
  assetMaps := AssetMap.new :: g.assetMaps
  eventBatches := ⟨[]⟩ :: g.eventBatches
  database := g.database.begin
  readOnly := g.isReadOnly :: g.readOnly

def beginReadOnly (g : GlobalContext S Ev) : GlobalContext S Ev where
  assetMaps := AssetMap.new :: g.assetMaps
  eventBatches := ⟨[]⟩ :: g.eventBatches
  database := g.database.begin
  readOnly := true :: g.readOnly

/-- The `match self.asset_maps.last_mut()` of `commit`: merge the popped map
into the one below it, or hand it out when it was the outermost. -/
def commitAssetMap (assetMap : AssetMap) :
    List AssetMap → Except ClarityError (Option AssetMap × List AssetMap)
  | tailBack :: rest => do
    let merged ← tailBack.commitOther assetMap
    pure (none, merged :: rest)
  | [] => .ok (some assetMap, [])

/-- The `match self.event_batches.last_mut()` of `commit`. -/
def commitEventBatch (eventBatch : EventBatch Ev) :
    List (EventBatch Ev) → Option (EventBatch Ev) × List (EventBatch Ev)
  | tailBack :: rest => (none, ⟨tailBack.events ++ eventBatch.events⟩ :: rest)
  | [] => (some eventBatch, [])

def commit (st : ClarityBackingStore S E) (g : GlobalContext S Ev) :
    Option (Except ClarityError (Option AssetMap × Option (EventBatch Ev)) × GlobalContext S Ev) :=
  let readOnly := g.readOnly.tail
  match g.assetMaps, g.eventBatches with
  | assetMap :: assetMaps, eventBatch :: eventBatches =>
    match commitAssetMap assetMap assetMaps with
    | .error e =>
      -- the other three stacks are already popped
      g.database.rollBack.map fun database =>
        (.error e, { assetMaps, eventBatches, database, readOnly })
    | .ok (outMap, assetMaps) =>
      let (outBatch, eventBatches) := commitEventBatch eventBatch eventBatches
      (g.database.commit st).map fun database =>
        (.ok (outMap, outBatch), { assetMaps, eventBatches, database, readOnly })
  -- "ERROR: Committed non-nested context."
  | _, _ => none

/-- `roll_back`, which asserts that each of the three stacks it pops was non-empty. -/
def rollBack (g : GlobalContext S Ev) : Option (GlobalContext S Ev) :=
  match g.assetMaps, g.readOnly, g.eventBatches with
  | _ :: assetMaps, _ :: readOnly, _ :: eventBatches =>
    g.database.rollBack.map fun database => { assetMaps, eventBatches, database, readOnly }
  | _, _, _ => none

def handleTxResult (st : ClarityBackingStore S E) (g : GlobalContext S Ev)
    (result : Except ClarityError Value) : Option (Except ClarityError Value × GlobalContext S Ev) :=
  match result with
  | .ok (.response committed data) =>
    if committed then
      (g.commit st).map fun (r, g) => (r.map fun _ => .response committed data, g)
    else g.rollBack.map fun g => (.ok (.response committed data), g)
  | .ok result =>
    result.typeOf.map fun t => (.error (.unchecked (.publicFunctionMustReturnResponse t)), g)
  | .error e => g.rollBack.map fun g => (.error e, g)

/-- `execute`: run `f` in a new level, rolled back if it fails and committed
otherwise. -/
def execute {T : Type} (st : ClarityBackingStore S E)
    (f : GlobalContext S Ev → Option (Except ClarityError T × GlobalContext S Ev))
    (g : GlobalContext S Ev) : Option (Except ClarityError T × GlobalContext S Ev) := do
  let (result, g) ← f g.begin
  match result with
  | .error e => g.rollBack.map fun g => (.error e, g)
  | .ok result => (g.commit st).map fun (r, g) => (r.map fun _ => result, g)

/-- A change to the top asset map, which `get_asset_map` `expect`s to exist:
the step shared by the `log_*` functions. -/
def updateAssetMap (f : AssetMap → Except ClarityError AssetMap) (g : GlobalContext S Ev) :
    Option (Except ClarityError Unit × GlobalContext S Ev) :=
  match g.assetMaps with
  | assetMap :: rest =>
    match f assetMap with
    | .ok assetMap => some (.ok (), { g with assetMaps := assetMap :: rest })
    | .error e => some (.error e, g)
  -- "Failed to obtain asset map"
  | [] => none

def logAssetTransfer (sender : PrincipalData) (contractIdentifier : QualifiedContractIdentifier)
    (assetName : ClarityName) (transfered : Value) (g : GlobalContext S Ev) :
    Option (Except ClarityError Unit × GlobalContext S Ev) :=
  updateAssetMap (fun m => .ok (m.addAssetTransfer sender ⟨contractIdentifier, assetName⟩ transfered)) g

def logTokenTransfer (sender : PrincipalData) (contractIdentifier : QualifiedContractIdentifier)
    (assetName : ClarityName) (transfered : Nat) (g : GlobalContext S Ev) :
    Option (Except ClarityError Unit × GlobalContext S Ev) :=
  updateAssetMap (fun m => m.addTokenTransfer sender ⟨contractIdentifier, assetName⟩ transfered) g

def logStxTransfer (sender : PrincipalData) (transfered : Nat) (g : GlobalContext S Ev) :
    Option (Except ClarityError Unit × GlobalContext S Ev) :=
  updateAssetMap (fun m => m.addStxTransfer sender transfered) g

def logStxBurn (sender : PrincipalData) (transfered : Nat) (g : GlobalContext S Ev) :
    Option (Except ClarityError Unit × GlobalContext S Ev) :=
  updateAssetMap (fun m => m.addStxBurn sender transfered) g

/-- The `register_*_event` functions of `Environment`: push the event onto the
top batch, if there is one. -/
def registerEvent (event : Ev) (g : GlobalContext S Ev) : GlobalContext S Ev :=
  match g.eventBatches with
  | batch :: rest => { g with eventBatches := ⟨batch.events ++ [event]⟩ :: rest }
  | [] => g

end GlobalContext

inductive DefineType where
  | readOnly
  | «public»
  | «private»
  deriving DecidableEq, Repr

/-- A user-defined function: how it was defined, and its `execute_apply` on
the arguments of the call, which evaluates its body in the context. -/
structure DefinedFunction (S Ev : Type) where
  defineType : DefineType
  executeApply : GlobalContext S Ev → Option (Except ClarityError Value × GlobalContext S Ev)

namespace DefinedFunction

variable {S Ev : Type}

def isReadOnly (f : DefinedFunction S Ev) : Bool := f.defineType == .readOnly

def isPublic (f : DefinedFunction S Ev) : Bool :=
  match f.defineType with
  | .«public» => true
  | .«private» => false
  | .readOnly => true

end DefinedFunction

namespace Environment

variable {S E Ev : Type}

def executeFunctionAsTransaction (st : ClarityBackingStore S E) (function : DefinedFunction S Ev)
    (g : GlobalContext S Ev) : Option (Except ClarityError Value × GlobalContext S Ev) := do
  let makeReadOnly := function.isReadOnly
  let g := if makeReadOnly then g.beginReadOnly else g.begin
  let (result, g) ← function.executeApply g
  if makeReadOnly then g.rollBack.map fun g => (result, g)
  else g.handleTxResult st result

end Environment

/-- `DefinedFunction::apply`: a private function runs in the caller's level,
the others as a transaction of their own. -/
def DefinedFunction.apply {S E Ev : Type} (st : ClarityBackingStore S E)
    (f : DefinedFunction S Ev) (g : GlobalContext S Ev) :
    Option (Except ClarityError Value × GlobalContext S Ev) :=
  match f.defineType with
  | .«private» => f.executeApply g
  | .«public» => Environment.executeFunctionAsTransaction st f g
  | .readOnly => Environment.executeFunctionAsTransaction st f g

/-- `OwnedEnvironment`, of which the model keeps the global context. -/
structure OwnedEnvironment (S Ev : Type) where
  context : GlobalContext S Ev

namespace OwnedEnvironment

variable {S E Ev : Type}

def begin (env : OwnedEnvironment S Ev) : OwnedEnvironment S Ev := ⟨env.context.begin⟩

def commit (st : ClarityBackingStore S E) (env : OwnedEnvironment S Ev) :
    Option (Except ClarityError (AssetMap × EventBatch Ev) × OwnedEnvironment S Ev) :=
  (env.context.commit st).map fun (r, context) =>
    (r.bind fun
      | (some assetMap, some eventBatch) => .ok (assetMap, eventBatch)
      | (none, _) => .error (.interpreter .failedToConstructAssetTable)
      | (some _, none) => .error (.interpreter .failedToConstructEventBatch),
     ⟨context⟩)

/-- `execute_in_env`, which asserts that it starts at the top level. -/
def executeInEnv {A : Type} (st : ClarityBackingStore S E) (env : OwnedEnvironment S Ev)
    (f : GlobalContext S Ev → Option (Except ClarityError A × GlobalContext S Ev)) :
    Option (Except ClarityError (A × AssetMap × List Ev) × OwnedEnvironment S Ev) :=
  if !env.context.isTopLevel then none
  else do
    let (result, context) ← f env.begin.context
    match result with
    | .ok returnValue =>
      (commit st ⟨context⟩).map fun (r, env) =>
        (r.map fun (assetMap, eventBatch) => (returnValue, assetMap, eventBatch.events), env)
    | .error e => context.rollBack.map fun context => (.error e, ⟨context⟩)

end OwnedEnvironment

end BlockstackCore
