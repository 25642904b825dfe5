import BlockstackCore.Vm.Contexts.GlobalContext

/-!
# The four stacks of the global context stay balanced

`Balanced g` says the event batches, the read-only flags and the database's
contexts have one entry per open level, as the asset maps do. Every call of
the context keeps it. `commit` and `roll_back` close exactly one level on
every path that does not panic, the failed `commit_other` included, and on a
`Consistent` context, whose database refines a stack of write logs, they do
not panic.

`handle_tx_result` closes the level when the function returned a response or
an error. Given `Ok` of any other value it returns
`PublicFunctionMustReturnResponse` and closes nothing, so the level that
`execute_function_as_transaction` opened stays open.
-/

namespace BlockstackCore

namespace ClarityDatabase

variable {S E : Type} {db db' : ClarityDatabase S}

theorem depth_rollBack (h : db.rollBack = some db') : db'.store.depth + 1 = db.store.depth := by
  unfold rollBack at h
  cases hr : db.store.rollback with
  | error e => simp [hr, Except.toOption] at h
  | ok w =>
    simp only [hr, Except.toOption, Option.map_some, Option.some.injEq] at h
    subst h
    exact RollbackWrapper.depth_rollback hr

theorem depth_commit {st : ClarityBackingStore S E} (h : db.commit st = some db') :
    db'.store.depth + 1 = db.store.depth := by
  unfold commit at h
  cases hc : db.store.commit st with
  | error e => simp [hc, Except.toOption] at h
  | ok w =>
    simp only [hc, Except.toOption, Option.map_some, Option.some.injEq] at h
    subst h
    exact RollbackWrapper.depth_commit hc

end ClarityDatabase

namespace GlobalContext

variable {S E Ev : Type} {st : ClarityBackingStore S E} {g g' : GlobalContext S Ev}

/-- One entry per open level in each of the four stacks. -/
structure Balanced (g : GlobalContext S Ev) : Prop where
  eventBatches : g.eventBatches.length = g.assetMaps.length
  readOnly : g.readOnly.length = g.assetMaps.length
  database : g.database.store.depth = g.assetMaps.length

@[simp] theorem level_begin (g : GlobalContext S Ev) : g.begin.level = g.level + 1 := rfl

@[simp] theorem level_beginReadOnly (g : GlobalContext S Ev) :
    g.beginReadOnly.level = g.level + 1 := rfl

theorem new_balanced (store : S) :
    Balanced (new ⟨RollbackWrapper.new store⟩ : GlobalContext S Ev) where
  eventBatches := rfl
  readOnly := rfl
  database := rfl

theorem Balanced.begin (h : Balanced g) : Balanced g.begin where
  eventBatches := by simp [GlobalContext.begin, h.eventBatches]
  readOnly := by simp [GlobalContext.begin, h.readOnly]
  database := by simp [GlobalContext.begin, ClarityDatabase.begin, h.database]

theorem Balanced.beginReadOnly (h : Balanced g) : Balanced g.beginReadOnly where
  eventBatches := by simp [GlobalContext.beginReadOnly, h.eventBatches]
  readOnly := by simp [GlobalContext.beginReadOnly, h.readOnly]
  database := by simp [GlobalContext.beginReadOnly, ClarityDatabase.begin, h.database]

/-! ## Closing a level -/

/-- A rollback that does not panic popped all four stacks. -/
theorem rollBack_eq_some (h : g.rollBack = some g') :
    ∃ a r b, g.assetMaps = a :: g'.assetMaps ∧ g.readOnly = r :: g'.readOnly ∧
      g.eventBatches = b :: g'.eventBatches ∧ g.database.rollBack = some g'.database := by
  unfold rollBack at h
  split at h
  · rename_i a assetMaps r readOnly b eventBatches ha hr hb
    obtain ⟨database, hdb, rfl⟩ := Option.map_eq_some_iff.mp h
    exact ⟨a, r, b, ha, hr, hb, hdb⟩
  · cases h

theorem Balanced.rollBack (h : Balanced g) (hr : g.rollBack = some g') :
    Balanced g' ∧ g'.level + 1 = g.level := by
  obtain ⟨a, r, b, ha, hro, hb, hdb⟩ := rollBack_eq_some hr
  have hd := ClarityDatabase.depth_rollBack hdb
  have he := h.eventBatches
  have hl := h.readOnly
  have hdd := h.database
  rw [ha, hb] at he
  rw [ha, hro] at hl
  rw [ha] at hdd
  simp only [List.length_cons] at he hl hdd
  refine ⟨⟨?_, ?_, ?_⟩, ?_⟩
  · omega
  · omega
  · omega
  · simp [level, ha]

theorem commitAssetMap_length {a : AssetMap} {as as' : List AssetMap} {out : Option AssetMap}
    (h : commitAssetMap a as = .ok (out, as')) : as'.length = as.length := by
  cases as with
  | nil => cases h; rfl
  | cons tailBack rest =>
    obtain ⟨merged, -, h⟩ := Except.bind_eq_ok'.mp h
    cases h
    rfl

theorem commitEventBatch_length (b : EventBatch Ev) (bs : List (EventBatch Ev)) :
    (commitEventBatch b bs).2.length = bs.length := by
  cases bs <;> rfl

/-- A commit that does not panic popped all four stacks: the database commits,
or rolls back when `commit_other` failed. -/
theorem commit_eq_some {r : Except ClarityError (Option AssetMap × Option (EventBatch Ev))}
    (h : g.commit st = some (r, g')) :
    ∃ a as b bs, g.assetMaps = a :: as ∧ g.eventBatches = b :: bs ∧
      g'.assetMaps.length = as.length ∧ g'.eventBatches.length = bs.length ∧
      g'.readOnly = g.readOnly.tail ∧
      (g.database.rollBack = some g'.database ∨ g.database.commit st = some g'.database) := by
  unfold commit at h
  split at h
  · rename_i a as b bs ha hb
    split at h
    · -- `commit_other` failed
      obtain ⟨database, hdb, h⟩ := Option.map_eq_some_iff.mp h
      cases h
      exact ⟨a, as, b, bs, ha, hb, rfl, rfl, rfl, .inl hdb⟩
    · rename_i outMap as' hc
      obtain ⟨database, hdb, h⟩ := Option.map_eq_some_iff.mp h
      cases h
      exact ⟨a, as, b, bs, ha, hb, commitAssetMap_length hc, commitEventBatch_length b bs, rfl,
        .inr hdb⟩
  · cases h

theorem Balanced.commit {r : Except ClarityError (Option AssetMap × Option (EventBatch Ev))}
    (h : Balanced g) (hc : g.commit st = some (r, g')) :
    Balanced g' ∧ g'.level + 1 = g.level := by
  obtain ⟨a, as, b, bs, ha, hb, hla, hlb, hro, hdb⟩ := commit_eq_some hc
  have hd : g'.database.store.depth + 1 = g.database.store.depth := by
    rcases hdb with hdb | hdb
    · exact ClarityDatabase.depth_rollBack hdb
    · exact ClarityDatabase.depth_commit hdb
  have he := h.eventBatches
  have hl := h.readOnly
  have hdd := h.database
  rw [ha, hb] at he
  rw [ha] at hl hdd
  simp only [List.length_cons] at he hl hdd
  refine ⟨⟨?_, ?_, ?_⟩, ?_⟩
  · omega
  · rw [hro, List.length_tail]
    omega
  · omega
  · simp only [level, ha, List.length_cons]
    omega

/-- What `handle_tx_result` closes the level on: a response, or an error. -/
def closesOn : Except ClarityError Value → Bool
  | .ok (.response _ _) => true
  | .ok _ => false
  | .error _ => true

theorem Balanced.handleTxResult {result r : Except ClarityError Value} (h : Balanced g)
    (hr : closesOn result = true) (hh : g.handleTxResult st result = some (r, g')) :
    Balanced g' ∧ g'.level + 1 = g.level := by
  unfold GlobalContext.handleTxResult at hh
  split at hh
  · split at hh
    · obtain ⟨⟨r', g''⟩, hc, h'⟩ := Option.map_eq_some_iff.mp hh
      cases h'
      exact h.commit hc
    · obtain ⟨g'', hrb, h'⟩ := Option.map_eq_some_iff.mp hh
      cases h'
      exact h.rollBack hrb
  · -- `Ok` of a value that is not a response: excluded
    rename_i v hv
    cases v <;> simp_all [closesOn]
  · obtain ⟨g'', hrb, h'⟩ := Option.map_eq_some_iff.mp hh
    cases h'
    exact h.rollBack hrb

/-- `handle_tx_result` given `Ok` of a value that is not a response leaves the
context as it was. -/
theorem handleTxResult_of_not_closesOn {v : Value} {r : Except ClarityError Value}
    (hv : closesOn (.ok v) = false) (hh : g.handleTxResult st (.ok v) = some (r, g')) :
    g' = g := by
  unfold GlobalContext.handleTxResult at hh
  split at hh
  · rename_i committed data hvr
    cases hvr
    simp [closesOn] at hv
  · obtain ⟨t, -, h'⟩ := Option.map_eq_some_iff.mp hh
    cases h'
    rfl
  · rename_i e he
    cases he

/-! ## Runs of calls -/

/-- The calls that open and close levels. -/
inductive ContextCall where
  | begin
  | beginReadOnly
  | commit
  | rollBack
  | handleTxResult (result : Except ClarityError Value)

/-- A call, with its result dropped; `none` is a panic. -/
def call (st : ClarityBackingStore S E) (g : GlobalContext S Ev) :
    ContextCall → Option (GlobalContext S Ev)
  | .begin => some g.begin
  | .beginReadOnly => some g.beginReadOnly
  | .commit => (g.commit st).map Prod.snd
  | .rollBack => g.rollBack
  | .handleTxResult result => (g.handleTxResult st result).map Prod.snd

def runCalls (st : ClarityBackingStore S E) : List ContextCall → GlobalContext S Ev →
    Option (GlobalContext S Ev)
  | [], g => some g
  | c :: cs, g => (g.call st c).bind (runCalls st cs)

/-- The number of open levels after a call that does not panic. -/
def ContextCall.levelAfter : ContextCall → Nat → Nat
  | .begin, n => n + 1
  | .beginReadOnly, n => n + 1
  | .commit, n => n - 1
  | .rollBack, n => n - 1
  | .handleTxResult result, n => if closesOn result then n - 1 else n

def ContextCall.levelAfterAll : List ContextCall → Nat → Nat
  | [], n => n
  | c :: cs, n => levelAfterAll cs (c.levelAfter n)

/-- Whether a call finds what it needs at level `n`: a level open for a call
that closes one, and a response or an error for `handle_tx_result`. -/
def ContextCall.closable : ContextCall → Nat → Bool
  | .begin, _ => true
  | .beginReadOnly, _ => true
  | .commit, n => 0 < n
  | .rollBack, n => 0 < n
  | .handleTxResult result, n => closesOn result && 0 < n

/-- Every call of the run is closable at the level the calls before it leave. -/
def ContextCall.nested : List ContextCall → Nat → Bool
  | [], _ => true
  | c :: cs, n => c.closable n && nested cs (c.levelAfter n)

/-- Every call keeps the stacks balanced and opens or closes the levels it says. -/
theorem Balanced.call {c : ContextCall} (h : Balanced g) (hc : g.call st c = some g') :
    Balanced g' ∧ g'.level = c.levelAfter g.level := by
  cases c with
  | begin =>
    cases hc
    exact ⟨h.begin, rfl⟩
  | beginReadOnly =>
    cases hc
    exact ⟨h.beginReadOnly, rfl⟩
  | commit =>
    obtain ⟨⟨r, g''⟩, hcommit, rfl⟩ := Option.map_eq_some_iff.mp hc
    obtain ⟨hb, hl⟩ := h.commit hcommit
    exact ⟨hb, by simp only [ContextCall.levelAfter]; omega⟩
  | rollBack =>
    obtain ⟨hb, hl⟩ := h.rollBack hc
    exact ⟨hb, by simp only [ContextCall.levelAfter]; omega⟩
  | handleTxResult result =>
    obtain ⟨⟨r, g''⟩, hh, rfl⟩ := Option.map_eq_some_iff.mp hc
    by_cases hr : closesOn result = true
    · obtain ⟨hb, hl⟩ := h.handleTxResult hr hh
      exact ⟨hb, by simp only [ContextCall.levelAfter, hr, if_true]; omega⟩
    · -- only `Ok` of a value that is not a response fails to close
      cases result with
      | error e => simp [closesOn] at hr
      | ok v =>
        have hv : closesOn (.ok v) = false := by simpa using hr
        have hg := handleTxResult_of_not_closesOn hv hh
        subst hg
        exact ⟨h, by simp [ContextCall.levelAfter, hv]⟩

/-- Over a whole run the stacks stay balanced, and the level is what the
calls open and close. -/
theorem Balanced.runCalls {cs : List ContextCall} (h : Balanced g)
    (hr : g.runCalls st cs = some g') :
    Balanced g' ∧ g'.level = ContextCall.levelAfterAll cs g.level := by
  induction cs generalizing g with
  | nil =>
    cases hr
    exact ⟨h, rfl⟩
  | cons c cs ih =>
    obtain ⟨g₁, hc, hrest⟩ := Option.bind_eq_some_iff.mp hr
    obtain ⟨hb₁, hl₁⟩ := h.call hc
    obtain ⟨hb, hl⟩ := ih hb₁ hrest
    exact ⟨hb, by rw [hl, hl₁]; rfl⟩

/-! ## Calls that close what they open -/

/-- A call on the context that, from a balanced context, returns a balanced
one at the level it started from. -/
def Closes {α : Type} (f : GlobalContext S Ev → Option (Except ClarityError α × GlobalContext S Ev)) :
    Prop :=
  ∀ g r g', Balanced g → f g = some (r, g') → Balanced g' ∧ g'.level = g.level

/-! ## Commits and rollbacks do not panic -/

/-- A balanced context whose database refines a stack of write logs. -/
structure Consistent (g : GlobalContext S Ev) : Prop extends Balanced g where
  refines : ∃ a, Refines g.database.store a

theorem Consistent.begin (h : Consistent g) : Consistent g.begin where
  toBalanced := h.toBalanced.begin
  refines := by
    obtain ⟨a, ha⟩ := h.refines
    exact ⟨_, ha.nest⟩

theorem Consistent.beginReadOnly (h : Consistent g) : Consistent g.beginReadOnly where
  toBalanced := h.toBalanced.beginReadOnly
  refines := by
    obtain ⟨a, ha⟩ := h.refines
    exact ⟨_, ha.nest⟩

/-- The open levels of a balanced context, one in each stack. -/
theorem Balanced.tops (h : Balanced g) (hl : 0 < g.level) :
    ∃ a as b bs r rs c cs, g.assetMaps = a :: as ∧ g.eventBatches = b :: bs ∧
      g.readOnly = r :: rs ∧ g.database.store.stack = c :: cs := by
  have hd : 0 < g.database.store.stack.length := by
    have := h.database
    simp only [RollbackWrapper.depth] at this
    simp only [level] at hl
    omega
  have hb : 0 < g.eventBatches.length := by
    rw [h.eventBatches]
    exact hl
  have hr : 0 < g.readOnly.length := by
    rw [h.readOnly]
    exact hl
  obtain ⟨a, as, ha⟩ := List.exists_cons_of_length_pos hl
  obtain ⟨b, bs, hb⟩ := List.exists_cons_of_length_pos hb
  obtain ⟨r, rs, hr⟩ := List.exists_cons_of_length_pos hr
  obtain ⟨c, cs, hc⟩ := List.exists_cons_of_length_pos hd
  exact ⟨a, as, b, bs, r, rs, c, cs, ha, hb, hr, hc⟩

/-- On a consistent context with a level open, `roll_back` does not panic. -/
theorem Consistent.rollBack (h : Consistent g) (hl : 0 < g.level) :
    ∃ g', g.rollBack = some g' ∧ Consistent g' := by
  obtain ⟨a, as, b, bs, r, rs, c, cs, ha, hb, hr, hc⟩ := h.tops hl
  obtain ⟨w, hw⟩ := h.refines
  obtain ⟨w', hrb, hw'⟩ := hw.rollback hc
  have hrollBack : g.rollBack = some ⟨as, bs, ⟨w'⟩, rs⟩ := by
    simp [GlobalContext.rollBack, ha, hb, hr, ClarityDatabase.rollBack, hrb, Except.toOption]
  exact ⟨_, hrollBack, (h.toBalanced.rollBack hrollBack).1, _, hw'⟩

/-- On a consistent context with a level open, `commit` does not panic,
whether `commit_other` succeeds or fails. -/
theorem Consistent.commit (h : Consistent g) (hl : 0 < g.level) :
    ∃ r g', g.commit st = some (r, g') ∧ Consistent g' := by
  obtain ⟨a, as, b, bs, r, rs, c, cs, ha, hb, hr, hc⟩ := h.tops hl
  obtain ⟨w, hw⟩ := h.refines
  cases hca : commitAssetMap a as with
  | error e =>
    obtain ⟨w', hrb, hw'⟩ := hw.rollback hc
    have hcommit : g.commit st = some (.error e, ⟨as, bs, ⟨w'⟩, g.readOnly.tail⟩) := by
      simp [GlobalContext.commit, ha, hb, hca, ClarityDatabase.rollBack, hrb, Except.toOption]
    exact ⟨_, _, hcommit, (h.toBalanced.commit hcommit).1, _, hw'⟩
  | ok p =>
    obtain ⟨outMap, as'⟩ := p
    obtain ⟨w', hcw, hw'⟩ := hw.commit hc st id
    have hcommit : g.commit st = some (.ok (outMap, (commitEventBatch b bs).1),
        ⟨as', (commitEventBatch b bs).2, ⟨w'⟩, g.readOnly.tail⟩) := by
      simp [GlobalContext.commit, ha, hb, hca, ClarityDatabase.commit, hcw, Except.toOption]
    exact ⟨_, _, hcommit, (h.toBalanced.commit hcommit).1, _, hw'⟩

/-- On a consistent context with a level open, a transaction result that is a
response or an error closes the level without a panic. -/
theorem Consistent.handleTxResult {result : Except ClarityError Value} (h : Consistent g) (hl : 0 < g.level)
    (hr : closesOn result = true) : ∃ r g', g.handleTxResult st result = some (r, g') ∧ Consistent g' := by
  unfold GlobalContext.handleTxResult
  split
  · split
    · obtain ⟨r, g', hcommit, hg'⟩ : ∃ r g', g.commit st = some (r, g') ∧ Consistent g' := h.commit hl
      exact ⟨_, g', by rw [hcommit]; rfl, hg'⟩
    · obtain ⟨g', hrb, hg'⟩ := h.rollBack hl
      exact ⟨_, g', by rw [hrb]; rfl, hg'⟩
  · -- `Ok` of a value that is not a response: excluded
    rename_i v hv
    cases v <;> simp_all [closesOn]
  · obtain ⟨g', hrb, hg'⟩ := h.rollBack hl
    exact ⟨_, g', by rw [hrb]; rfl, hg'⟩

/-- A closable call on a consistent context does not panic, and the context
stays consistent. -/
theorem Consistent.call {c : ContextCall} (h : Consistent g) (hc : c.closable g.level = true) :
    ∃ g', g.call st c = some g' ∧ Consistent g' := by
  cases c with
  | begin => exact ⟨_, rfl, h.begin⟩
  | beginReadOnly => exact ⟨_, rfl, h.beginReadOnly⟩
  | commit =>
    obtain ⟨r, g', hcommit, hg'⟩ : ∃ r g', g.commit st = some (r, g') ∧ Consistent g' :=
      h.commit (by simpa [ContextCall.closable] using hc)
    exact ⟨g', by simp [GlobalContext.call, hcommit], hg'⟩
  | rollBack => exact h.rollBack (by simpa [ContextCall.closable] using hc)
  | handleTxResult result =>
    have hc' : closesOn result = true ∧ 0 < g.level := by simpa [ContextCall.closable] using hc
    obtain ⟨r, g', hh, hg'⟩ : ∃ r g', g.handleTxResult st result = some (r, g') ∧ Consistent g' :=
      h.handleTxResult hc'.2 hc'.1
    exact ⟨g', by simp [GlobalContext.call, hh], hg'⟩

/-- From a consistent context, a nested run of calls does not panic: the
context stays consistent, and ends at the level the calls count. -/
theorem Consistent.runCalls_of_nested {cs : List ContextCall} (h : Consistent g)
    (hn : ContextCall.nested cs g.level = true) :
    ∃ g', g.runCalls st cs = some g' ∧ Consistent g' ∧ g'.level = ContextCall.levelAfterAll cs g.level := by
  -- the run returns and keeps consistency: induction on the calls, each
  -- closable at the level the call before it leaves
  have hrun : ∀ (cs : List ContextCall) (g : GlobalContext S Ev), Consistent g →
      ContextCall.nested cs g.level = true → ∃ g', g.runCalls st cs = some g' ∧ Consistent g' := by
    intro cs
    induction cs with
    | nil => exact fun g h _ => ⟨g, rfl, h⟩
    | cons c cs ih =>
      intro g h hn
      simp only [ContextCall.nested, Bool.and_eq_true] at hn
      obtain ⟨g₁, hc, hg₁⟩ : ∃ g₁, g.call st c = some g₁ ∧ Consistent g₁ := h.call hn.1
      have hl₁ : g₁.level = c.levelAfter g.level := (h.toBalanced.call hc).2
      obtain ⟨g', hrest, hg'⟩ := ih g₁ hg₁ (hl₁ ▸ hn.2)
      exact ⟨g', by simp [GlobalContext.runCalls, hc, hrest], hg'⟩
  obtain ⟨g', hr, hg'⟩ := hrun cs g h hn
  exact ⟨g', hr, hg', (h.toBalanced.runCalls hr).2⟩

/-- The backing store of the witnesses: one state, and nothing stored. -/
def unitStore : ClarityBackingStore Unit Unit :=
  ⟨fun _ _ => none, fun s _ => s, fun _ _ _ => .ok none, fun s _ => s, fun _ _ => false⟩

/-- A read-only level that commits a response inside a level that rolls back. -/
def nestedCalls : List ContextCall :=
  [.begin, .beginReadOnly, .handleTxResult (.ok (.response true (.int 1))), .rollBack]

theorem nestedCalls_run_consistent :
    Consistent (new ⟨RollbackWrapper.new ()⟩ : GlobalContext Unit Unit) ∧ ContextCall.nested nestedCalls 0 = true ∧
      ∃ g', (new ⟨RollbackWrapper.new ()⟩ : GlobalContext Unit Unit).runCalls unitStore nestedCalls = some g' ∧
        Consistent g' ∧ g'.level = 0 := by
  have h : Consistent (new ⟨RollbackWrapper.new ()⟩ : GlobalContext Unit Unit) :=
    ⟨new_balanced (), _, Refines.new ()⟩
  exact ⟨h, by decide, Consistent.runCalls_of_nested h (by decide)⟩

end GlobalContext

namespace Environment

open GlobalContext

variable {S E Ev : Type} {st : ClarityBackingStore S E}

/-- A function's transaction closes the level it opens when its body closes
what it opens and, unless the function is read-only, returns a response or an
error. -/
theorem executeFunctionAsTransaction_closes {function : DefinedFunction S Ev}
    (hf : Closes function.executeApply)
    (hr : function.isReadOnly = false →
      ∀ g r g', function.executeApply g = some (r, g') → closesOn r = true) :
    Closes (executeFunctionAsTransaction st function) := by
  intro g r g' h he
  obtain ⟨⟨result, g₁⟩, happ, he⟩ := Option.bind_eq_some_iff.mp he
  by_cases hro : function.isReadOnly = true
  · simp only [hro, if_true] at happ he
    obtain ⟨hb₁, hl₁⟩ := hf _ _ _ h.beginReadOnly happ
    obtain ⟨g₂, hrb, h'⟩ := Option.map_eq_some_iff.mp he
    cases h'
    obtain ⟨hb, hl⟩ := hb₁.rollBack hrb
    exact ⟨hb, by simp only [level_beginReadOnly] at hl₁; omega⟩
  · have hro' : function.isReadOnly = false := by simpa using hro
    simp only [hro', Bool.false_eq_true, if_false] at happ he
    obtain ⟨hb₁, hl₁⟩ := hf _ _ _ h.begin happ
    obtain ⟨hb, hl⟩ := hb₁.handleTxResult (hr hro' _ _ _ happ) he
    exact ⟨hb, by simp only [level_begin] at hl₁; omega⟩

end Environment

theorem DefinedFunction.apply_closes {S E Ev : Type} {st : ClarityBackingStore S E}
    {function : DefinedFunction S Ev} (hf : GlobalContext.Closes function.executeApply)
    (hr : function.isReadOnly = false →
      ∀ g r g', function.executeApply g = some (r, g') → GlobalContext.closesOn r = true) :
    GlobalContext.Closes (function.apply st) := by
  intro g r g' h ha
  unfold DefinedFunction.apply at ha
  split at ha
  · exact hf _ _ _ h ha
  · exact Environment.executeFunctionAsTransaction_closes hf hr _ _ _ h ha
  · exact Environment.executeFunctionAsTransaction_closes hf hr _ _ _ h ha

namespace OwnedEnvironment

open GlobalContext

variable {S E Ev : Type} {st : ClarityBackingStore S E} {env env' : OwnedEnvironment S Ev}

theorem commit_eq_some {r : Except ClarityError (AssetMap × EventBatch Ev)}
    (h : env.commit st = some (r, env')) : ∃ r', env.context.commit st = some (r', env'.context) := by
  obtain ⟨⟨r', g⟩, hc, h'⟩ := Option.map_eq_some_iff.mp h
  simp only [Prod.mk.injEq] at h'
  obtain ⟨-, rfl⟩ := h'
  exact ⟨r', hc⟩

/-- `execute_in_env` asserts that it starts at the top level. -/
theorem executeInEnv_of_level_pos {A : Type} (h : 0 < env.context.level)
    (f : GlobalContext S Ev → Option (Except ClarityError A × GlobalContext S Ev)) :
    env.executeInEnv st f = none := by
  have htop : env.context.isTopLevel = false := by
    have hne : env.context.assetMaps.length ≠ 0 := Nat.pos_iff_ne_zero.mp h
    simpa [GlobalContext.isTopLevel] using hne
  simp [executeInEnv, htop]

/-- `execute_in_env` returns at the top level whenever the closure closes the
levels it opens. -/
theorem executeInEnv_closes {A : Type}
    {f : GlobalContext S Ev → Option (Except ClarityError A × GlobalContext S Ev)}
    {r : Except ClarityError (A × AssetMap × List Ev)} (hf : Closes f)
    (h : Balanced env.context) (he : env.executeInEnv st f = some (r, env')) :
    Balanced env'.context ∧ env'.context.level = 0 := by
  unfold executeInEnv at he
  split at he
  · cases he
  · rename_i htop
    have hl₀ : env.context.level = 0 := by simpa [GlobalContext.isTopLevel, level] using htop
    obtain ⟨⟨result, g₁⟩, hf₁, he⟩ := Option.bind_eq_some_iff.mp he
    obtain ⟨hb₁, hl₁⟩ := hf _ _ _ h.begin hf₁
    simp only [level_begin] at hl₁
    cases result with
    | ok returnValue =>
      obtain ⟨⟨r', env₂⟩, hc, h'⟩ := Option.map_eq_some_iff.mp he
      simp only [Prod.mk.injEq] at h'
      obtain ⟨-, rfl⟩ := h'
      obtain ⟨r'', hc'⟩ := commit_eq_some hc
      obtain ⟨hb, hl⟩ := hb₁.commit hc'
      exact ⟨hb, by omega⟩
    | error e =>
      obtain ⟨g₂, hrb, h'⟩ := Option.map_eq_some_iff.mp he
      cases h'
      obtain ⟨hb, hl⟩ := hb₁.rollBack hrb
      refine ⟨hb, ?_⟩
      dsimp only
      omega

/-- A contract function run through `execute_in_env` returns at the top level
whenever its body closes the levels it opens and, unless the function is
read-only, returns a response or an error. -/
theorem executeInEnv_apply_closes {function : DefinedFunction S Ev} (hf : Closes function.executeApply)
    (hr : function.isReadOnly = false →
      ∀ g r g', function.executeApply g = some (r, g') → closesOn r = true)
    (h : Balanced env.context) {r : Except ClarityError (Value × AssetMap × List Ev)}
    (he : env.executeInEnv st (function.apply st) = some (r, env')) :
    Balanced env'.context ∧ env'.context.level = 0 :=
  executeInEnv_closes (DefinedFunction.apply_closes hf hr) h he

/-- A public function whose body returns `(ok 1)` and touches nothing else. -/
def okayFunction : DefinedFunction Unit Unit := ⟨.«public», fun g => some (.ok (.response true (.int 1)), g)⟩

theorem executeInEnv_apply_closes_okayFunction :
    Closes okayFunction.executeApply ∧
      (okayFunction.isReadOnly = false →
        ∀ g r g', okayFunction.executeApply g = some (r, g') → closesOn r = true) ∧
      Balanced (new ⟨RollbackWrapper.new ()⟩ : GlobalContext Unit Unit) ∧
      ∃ r env', executeInEnv GlobalContext.unitStore ⟨new ⟨RollbackWrapper.new ()⟩⟩
          (okayFunction.apply GlobalContext.unitStore) = some (r, env') ∧
        Balanced env'.context ∧ env'.context.level = 0 := by
  have hf : Closes okayFunction.executeApply := by
    intro g r g' h happ
    cases happ
    exact ⟨h, rfl⟩
  have hr : okayFunction.isReadOnly = false →
      ∀ g r g', okayFunction.executeApply g = some (r, g') → closesOn r = true := by
    intro _ g r g' happ
    cases happ
    rfl
  obtain ⟨⟨r, env'⟩, he⟩ : ∃ p, executeInEnv GlobalContext.unitStore ⟨new ⟨RollbackWrapper.new ()⟩⟩
      (okayFunction.apply GlobalContext.unitStore) = some p :=
    Option.isSome_iff_exists.mp (by decide +kernel)
  exact ⟨hf, hr, new_balanced (), r, env', he, executeInEnv_apply_closes hf hr (new_balanced ()) he⟩

end OwnedEnvironment

/-- A public function whose body evaluates to `1` and touches nothing else,
run as a transaction on a fresh context: `handle_tx_result` returns
`PublicFunctionMustReturnResponse` with the function's level still open, and
`execute_in_env` around it rolls back only its own level, so it returns with
one level open and every later `execute_in_env` on that environment panics. -/
theorem executeFunctionAsTransaction_leaves_level_open {S E Ev : Type}
    (st : ClarityBackingStore S E) (store : S) :
    let g : GlobalContext S Ev := .new ⟨RollbackWrapper.new store⟩
    let function : DefinedFunction S Ev := ⟨.«public», fun g => some (.ok (.int 1), g)⟩
    let e : ClarityError := .unchecked (.publicFunctionMustReturnResponse .intType)
    GlobalContext.Closes function.executeApply ∧
      Environment.executeFunctionAsTransaction st function g = some (.error e, g.begin) ∧
      g.begin.level = g.level + 1 ∧
      OwnedEnvironment.executeInEnv st ⟨g⟩ (Environment.executeFunctionAsTransaction st function) =
        some (.error e, ⟨g.begin⟩) ∧
      ∀ {A : Type} (f : GlobalContext S Ev → Option (Except ClarityError A × GlobalContext S Ev)),
        OwnedEnvironment.executeInEnv st ⟨g.begin⟩ f = none := by
  intro g function e
  have hbody : GlobalContext.Closes function.executeApply := by
    intro g₁ r g₂ h happ
    cases happ
    exact ⟨h, rfl⟩
  refine ⟨hbody, rfl, rfl, rfl, ?_⟩
  intro A f
  have hl : 0 < (⟨g.begin⟩ : OwnedEnvironment S Ev).context.level := Nat.succ_pos 0
  exact OwnedEnvironment.executeInEnv_of_level_pos hl f

end BlockstackCore
