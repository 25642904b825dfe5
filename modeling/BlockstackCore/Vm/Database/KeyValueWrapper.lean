import BlockstackCore.Library.Outcome
import BlockstackCore.Library.UndoLog
import BlockstackCore.Vm.Types.Principals

/-!
# The rollback wrapper

`RollbackWrapper` (`vm/database/key_value_wrapper.rs`) keeps, for every key,
the history of the values written to it at all open nesting levels, and for
every open level the keys it wrote. A rollback pops those keys' newest values;
a commit hands the level's keys to the level below, and the outermost commit
drains the histories into one `put_all` on the backing store.

The model is the build without the `rollback_value_check` cfg, where
`RollbackValueCheck` is `()`: an edit is its key alone. The stack is a list
with its top first. A panic is an `Except` error naming the `expect`,
`unwrap` or `assert!` that fails.
-/

namespace BlockstackCore

/-- The panics of the wrapper. -/
inductive WrapperPanic where
  /-- `self.stack.pop()` or `self.stack.last()` finds no context. -/
  | emptyStack
  /-- `rollback_lookup_map`: "Clarity VM had edit log entry, but not lookup_map entry". -/
  | missingHistory
  /-- `rollback_lookup_map`: `key_edit_history.pop().unwrap()` on an empty history. -/
  | emptyHistory
  /-- `assert!(lookup_map.len() == 0)` after the outermost commit drained the edits. -/
  | lookupMapNotEmpty
  deriving DecidableEq, Repr

/-- The functions of `ClarityBackingStore` the wrapper calls. -/
structure ClarityBackingStore (S E : Type) where
  get : S → String → Option String
  putAll : S → List (String × String) → S
  getMetadata : S → QualifiedContractIdentifier → String → Except E (Option String)
  putAllMetadata : S → List ((QualifiedContractIdentifier × String) × String) → S
  hasEntry : S → String → Bool

abbrev MetadataKey := QualifiedContractIdentifier × String

structure RollbackContext where
  edits : List String
  metadataEdits : List MetadataKey

structure RollbackWrapper (S : Type) where
  store : S
  lookupMap : Std.HashMap String (List String)
  metadataLookupMap : Std.HashMap MetadataKey (List String)
  stack : List RollbackContext

section Generic

variable {T : Type} [BEq T] [Hashable T]

/-- `rollback_lookup_map`: pop the newest value written to `key`, removing the
key once its history is empty. -/
def rollbackLookupMap (key : T) (lookupMap : Std.HashMap T (List String)) :
    Except WrapperPanic (String × Std.HashMap T (List String)) :=
  match lookupMap[key]? with
  | none => .error .missingHistory
  | some keyEditHistory =>
    match keyEditHistory.getLast? with
    | none => .error .emptyHistory
    | some poppedValue =>
      let rest := keyEditHistory.dropLast
      if rest.length == 0 then .ok (poppedValue, lookupMap.erase key)
      else .ok (poppedValue, lookupMap.insert key rest)

/-- The loop of `rollback`: undo the level's edits, newest first. -/
def rollbackEdits (edits : List T) (lookupMap : Std.HashMap T (List String)) :
    Except WrapperPanic (Std.HashMap T (List String)) :=
  edits.reverse.foldlM (fun m key => Prod.snd <$> rollbackLookupMap key m) lookupMap

/-- The `map` of `rollback_check_pre_bottom_commit`: pop each edit's value from
the reversed histories, oldest edit first. -/
def drainEdits : List T → Std.HashMap T (List String) →
    Except WrapperPanic (List (T × String) × Std.HashMap T (List String))
  | [], m => .ok ([], m)
  | key :: edits, m => do
    let (value, m) ← rollbackLookupMap key m
    let (output, m) ← drainEdits edits m
    pure ((key, value) :: output, m)

/-- `rollback_check_pre_bottom_commit` (unchecked build): reverse every history,
drain the edits in order, and assert that nothing is left. -/
def rollbackCheckPreBottomCommit (edits : List T) (lookupMap : Std.HashMap T (List String)) :
    Except WrapperPanic (List (T × String) × Std.HashMap T (List String)) := do
  let (output, m) ← drainEdits edits (lookupMap.map fun _ h => h.reverse)
  if m.size == 0 then pure (output, m) else .error .lookupMapNotEmpty

/-- `inner_put`: make sure the key has a history, then push the value onto it
and the key onto the level's edits. -/
def innerPut (lookupMap : Std.HashMap T (List String)) (edits : List T) (key : T)
    (value : String) : Std.HashMap T (List String) × List T :=
  let lookupMap := if !lookupMap.contains key then lookupMap.insert key [] else lookupMap
  (lookupMap.modify key (· ++ [value]), edits ++ [key])

end Generic

namespace RollbackWrapper

variable {S E : Type}

def new (store : S) : RollbackWrapper S := ⟨store, ∅, ∅, []⟩

def depth (w : RollbackWrapper S) : Nat := w.stack.length

def nest (w : RollbackWrapper S) : RollbackWrapper S :=
  { w with stack := ⟨[], []⟩ :: w.stack }

def rollback (w : RollbackWrapper S) : Except WrapperPanic (RollbackWrapper S) :=
  match w.stack with
  | [] => .error .emptyStack
  | lastItem :: stack => do
    let lookupMap ← rollbackEdits lastItem.edits w.lookupMap
    let metadataLookupMap ← rollbackEdits lastItem.metadataEdits w.metadataLookupMap
    pure { w with lookupMap, metadataLookupMap, stack }

def commit (st : ClarityBackingStore S E) (w : RollbackWrapper S) :
    Except WrapperPanic (RollbackWrapper S) :=
  match w.stack with
  | [] => .error .emptyStack
  | [lastItem] => do
    -- committing to the backing store
    let (allEdits, lookupMap) ← rollbackCheckPreBottomCommit lastItem.edits w.lookupMap
    let store := if allEdits.length > 0 then st.putAll w.store allEdits else w.store
    let (metadataEdits, metadataLookupMap) ←
      rollbackCheckPreBottomCommit lastItem.metadataEdits w.metadataLookupMap
    let store := if metadataEdits.length > 0 then st.putAllMetadata store metadataEdits else store
    pure { store, lookupMap, metadataLookupMap, stack := [] }
  | lastItem :: nextUp :: stack =>
    -- bubble up to the next item in the stack
    pure { w with stack := ⟨nextUp.edits ++ lastItem.edits,
      nextUp.metadataEdits ++ lastItem.metadataEdits⟩ :: stack }

def put (w : RollbackWrapper S) (key value : String) : Except WrapperPanic (RollbackWrapper S) :=
  match w.stack with
  | [] => .error .emptyStack
  | current :: stack =>
    let (lookupMap, edits) := innerPut w.lookupMap current.edits key value
    .ok { w with lookupMap, stack := { current with edits } :: stack }

def insertMetadata (w : RollbackWrapper S) (contract : QualifiedContractIdentifier)
    (key value : String) : Except WrapperPanic (RollbackWrapper S) :=
  match w.stack with
  | [] => .error .emptyStack
  | current :: stack =>
    let (metadataLookupMap, metadataEdits) :=
      innerPut w.metadataLookupMap current.metadataEdits (contract, key) value
    .ok { w with metadataLookupMap, stack := { current with metadataEdits } :: stack }

/-- `get`: the newest value in the lookup map, else the store's, each passed
through the value type's `deserialize`. -/
def get {α : Type} (st : ClarityBackingStore S E) (deserialize : String → α)
    (w : RollbackWrapper S) (key : String) : Except WrapperPanic (Option α) :=
  match w.stack with
  | [] => .error .emptyStack
  | _ :: _ =>
    match (w.lookupMap[key]?.bind List.getLast?).map deserialize with
    | some x => .ok (some x)
    | none => .ok ((st.get w.store key).map deserialize)

def getMetadata (st : ClarityBackingStore S E) (w : RollbackWrapper S)
    (contract : QualifiedContractIdentifier) (key : String) :
    Except WrapperPanic (Except E (Option String)) :=
  match w.stack with
  | [] => .error .emptyStack
  | _ :: _ =>
    match w.metadataLookupMap[(contract, key)]?.bind List.getLast? with
    | some x => .ok (.ok (some x))
    | none => .ok (st.getMetadata w.store contract key)

def hasEntry (st : ClarityBackingStore S E) (w : RollbackWrapper S) (key : String) :
    Except WrapperPanic Bool :=
  match w.stack with
  | [] => .error .emptyStack
  | _ :: _ => .ok (if w.lookupMap.contains key then true else st.hasEntry w.store key)

def hasMetadataEntry (st : ClarityBackingStore S E) (w : RollbackWrapper S)
    (contract : QualifiedContractIdentifier) (key : String) : Except WrapperPanic Bool := do
  match ← getMetadata st w contract key with
  | .ok (some _) => pure true
  | _ => pure false

@[simp] theorem depth_nest (w : RollbackWrapper S) : w.nest.depth = w.depth + 1 := rfl

/-- A rollback that does not panic closes one context. -/
theorem depth_rollback {w w' : RollbackWrapper S} (h : w.rollback = .ok w') :
    w'.depth + 1 = w.depth := by
  unfold rollback at h
  split at h
  · cases h
  · rename_i lastItem stack hs
    obtain ⟨_, -, h⟩ := Except.bind_eq_ok'.mp h
    obtain ⟨_, -, h⟩ := Except.bind_eq_ok'.mp h
    cases h
    simp [depth, hs]

/-- A commit that does not panic closes one context. -/
theorem depth_commit {st : ClarityBackingStore S E} {w w' : RollbackWrapper S}
    (h : w.commit st = .ok w') : w'.depth + 1 = w.depth := by
  unfold commit at h
  split at h
  · cases h
  · rename_i lastItem hs
    obtain ⟨_, -, h⟩ := Except.bind_eq_ok'.mp h
    obtain ⟨_, -, h⟩ := Except.bind_eq_ok'.mp h
    cases h
    simp [depth, hs]
  · rename_i lastItem nextUp stack hs
    cases h
    simp [depth, hs]

end RollbackWrapper

end BlockstackCore

namespace BlockstackCore

/-- A call on the wrapper's interface. -/
inductive WrapperCall where
  | nest
  | put (key value : String)
  | insertMetadata (contract : QualifiedContractIdentifier) (key value : String)
  | get (key : String)
  | getMetadata (contract : QualifiedContractIdentifier) (key : String)
  | hasEntry (key : String)
  | commit
  | rollback

/-- What a call returns. -/
inductive WrapperReply (α E : Type) where
  | done
  | value (v : Option α)
  | metadata (r : Except E (Option String))
  | entry (b : Bool)

namespace RollbackWrapper

variable {S E α : Type}

def call (st : ClarityBackingStore S E) (deserialize : String → α) (w : RollbackWrapper S) :
    WrapperCall → Except WrapperPanic (RollbackWrapper S × WrapperReply α E)
  | .nest => .ok (w.nest, .done)
  | .put key value => (·, .done) <$> w.put key value
  | .insertMetadata contract key value => (·, .done) <$> w.insertMetadata contract key value
  | .get key => (fun v => (w, .value v)) <$> w.get st deserialize key
  | .getMetadata contract key => (fun r => (w, .metadata r)) <$> w.getMetadata st contract key
  | .hasEntry key => (fun b => (w, .entry b)) <$> w.hasEntry st key
  | .commit => (·, .done) <$> w.commit st
  | .rollback => (·, .done) <$> w.rollback

/-- A sequence of calls: the replies up to the first panic, and the final
wrapper or that panic. -/
def runCalls (st : ClarityBackingStore S E) (deserialize : String → α) :
    List WrapperCall → RollbackWrapper S →
      List (WrapperReply α E) × Except WrapperPanic (RollbackWrapper S)
  | [], w => ([], .ok w)
  | c :: cs, w =>
    match w.call st deserialize c with
    | .error p => ([], .error p)
    | .ok (w', r) => (r :: (runCalls st deserialize cs w').1, (runCalls st deserialize cs w').2)

end RollbackWrapper

end BlockstackCore
