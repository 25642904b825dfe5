import BlockstackCore.Library.NestedLog
import BlockstackCore.Library.Outcome
import BlockstackCore.Vm.Database.KeyValueWrapper

/-!
# The rollback wrapper refines a stack of write logs

`EditStack` is what the wrapper is for: one write log per open context, read
through from the newest live write down to the backing store
(`NestedLog`). `Refines w a` relates a wrapper to such a stack: its per-level
edits are the logs' keys, and its two lookup maps track the logs' histories
(`UndoLog.Tracks`).

The loops of the wrapper are inductions over a log that cite one lemma of
`UndoLog` per edit: `rollbackEdits_tracks` for a rollback,
`drainEdits_revTracks` for the outermost commit.
-/

namespace BlockstackCore

open UndoLog NestedLog

section Loops

variable {T : Type} [BEq T] [LawfulBEq T] [Hashable T]

theorem rollbackLookupMap_newest {m : Std.HashMap T (List String)} {log : List (T × String)}
    {k : T} {v : String} (h : Tracks m (log ++ [(k, v)])) :
    ∃ m', rollbackLookupMap k m = .ok (v, m') ∧ Tracks m' log := by
  refine ⟨if history log k = [] then m.erase k else m.insert k (history log k), ?_, h.undo⟩
  have hdrop : (history log k ++ [v]).dropLast = history log k := List.dropLast_concat
  simp only [rollbackLookupMap, h.newest, List.getLast?_concat, hdrop]
  by_cases hnil : history log k = [] <;> simp [hnil]

theorem rollbackEdits_reverse_tracks (r : List (T × String)) :
    ∀ (log : List (T × String)) (m : Std.HashMap T (List String)), Tracks m (log ++ r.reverse) →
      ∃ m', (r.map Prod.fst).foldlM (fun m key => Prod.snd <$> rollbackLookupMap key m) m =
        .ok m' ∧ Tracks m' log := by
  induction r with
  | nil => intro log m h; exact ⟨m, rfl, by simpa using h⟩
  | cons e r ih =>
    intro log m h
    obtain ⟨k, v⟩ := e
    rw [List.reverse_cons, ← List.append_assoc] at h
    obtain ⟨m₁, hpop, h₁⟩ := rollbackLookupMap_newest h
    obtain ⟨m', hrest, h'⟩ := ih log m₁ h₁
    refine ⟨m', ?_, h'⟩
    simp only [List.map_cons, List.foldlM_cons, hpop]
    exact hrest

/-- A rollback undoes exactly the level's writes, newest first. -/
theorem rollbackEdits_tracks {m : Std.HashMap T (List String)} {log f : List (T × String)}
    (h : Tracks m (log ++ f)) :
    ∃ m', rollbackEdits (f.map Prod.fst) m = .ok m' ∧ Tracks m' log := by
  have h' : Tracks m (log ++ f.reverse.reverse) := by simpa using h
  obtain ⟨m', hrun, ht⟩ := rollbackEdits_reverse_tracks f.reverse log m h'
  refine ⟨m', ?_, ht⟩
  simpa [rollbackEdits, List.map_reverse] using hrun

/-- Draining reversed histories in edit order gives back every write. -/
theorem drainEdits_revTracks (f : List (T × String)) :
    ∀ (m : Std.HashMap T (List String)), RevTracks m f →
      ∃ m', drainEdits (f.map Prod.fst) m = .ok (f, m') ∧ RevTracks m' [] := by
  induction f with
  | nil => intro m h; exact ⟨m, rfl, h⟩
  | cons e f ih =>
    intro m h
    obtain ⟨k, v⟩ := e
    have hpop : rollbackLookupMap k m = .ok (v, if history f k = [] then m.erase k
        else m.insert k (history f k).reverse) := by
      have hdrop : ((history f k).reverse ++ [v]).dropLast = (history f k).reverse :=
        List.dropLast_concat
      simp only [rollbackLookupMap, h.oldest, List.getLast?_concat, hdrop]
      by_cases hnil : history f k = [] <;> simp [hnil]
    obtain ⟨m', hrest, h'⟩ := ih _ h.drain
    refine ⟨m', ?_, h'⟩
    simp [drainEdits, hpop, hrest]

/-- The outermost commit finds every live write, in order, and leaves no
history behind: neither its `expect` nor its `assert!` fires. -/
theorem rollbackCheckPreBottomCommit_tracks {m : Std.HashMap T (List String)}
    {f : List (T × String)} (h : Tracks m f) :
    ∃ m', rollbackCheckPreBottomCommit (f.map Prod.fst) m = .ok (f, m') ∧ Tracks m' [] := by
  obtain ⟨m', hdrain, hempty⟩ := drainEdits_revTracks f _ h.reverse
  have hsize : m'.size = 0 := by
    have := hempty.isEmpty
    rw [Std.HashMap.isEmpty_eq_size_eq_zero] at this
    simpa using this
  refine ⟨m', ?_, fun k => by simpa using hempty k⟩
  simp [rollbackCheckPreBottomCommit, hdrain, hsize]

theorem innerPut_tracks {m : Std.HashMap T (List String)} {log : List (T × String)}
    (h : Tracks m log) (edits : List T) (k : T) (v : String) :
    Tracks (innerPut m edits k v).1 (log ++ [(k, v)]) ∧
      (innerPut m edits k v).2 = edits ++ [k] := by
  refine ⟨?_, rfl⟩
  intro k'
  rw [← h.push k v k']
  let m₁ := if !m.contains k then m.insert k [] else m
  have hcur : m₁[k]? = some (history log k) := by
    have hc := h.contains k
    cases hmk : m.contains k
    · have hnil : history log k = [] := by simpa [hmk] using hc
      simp [m₁, hmk, hnil]
    · have hne : history log k ≠ [] := by simpa [hmk] using hc
      simp [m₁, hmk, h k, entry_of_ne_nil hne]
  have hother : (k == k') = false → m₁[k']? = m[k']? := by
    intro hk
    cases hmk : m.contains k <;> simp [m₁, hmk, Std.HashMap.getElem?_insert, hk]
  change (m₁.modify k (· ++ [v]))[k']? = _
  rw [Std.HashMap.getElem?_modify, Std.HashMap.getElem?_insert]
  cases hk : k == k'
  · simp [hother hk]
  · have hkk := eq_of_beq hk
    subst hkk
    simp [hcur]

end Loops

/-- What the wrapper is for: the backing store, and a write log per open
context for the data keys and for the metadata keys. -/
@[ext]
structure EditStack (S : Type) where
  store : S
  frames : Frames String String
  metadataFrames : Frames MetadataKey String

namespace EditStack

variable {S E α : Type}

/-- A call on the specification: a read sees the newest live write, else the
store; the outermost commit hands its whole log to `put_all`. -/
def call (st : ClarityBackingStore S E) (deserialize : String → α) (a : EditStack S) :
    WrapperCall → EditStack S × WrapperReply α E
  | .nest => ({ a with frames := nest a.frames, metadataFrames := nest a.metadataFrames }, .done)
  | .put key value => ({ a with frames := write key value a.frames }, .done)
  | .insertMetadata contract key value =>
    ({ a with metadataFrames := write (contract, key) value a.metadataFrames }, .done)
  | .get key =>
    (a, .value (match read a.frames key with
      | some v => some (deserialize v)
      | none => (st.get a.store key).map deserialize))
  | .getMetadata contract key =>
    (a, .metadata (match read a.metadataFrames (contract, key) with
      | some v => .ok (some v)
      | none => st.getMetadata a.store contract key))
  | .hasEntry key => (a, .entry ((read a.frames key).isSome || st.hasEntry a.store key))
  | .commit =>
    let store := match (NestedLog.commit a.frames).2 with
      | some l => if l.length > 0 then st.putAll a.store l else a.store
      | none => a.store
    let store := match (NestedLog.commit a.metadataFrames).2 with
      | some l => if l.length > 0 then st.putAllMetadata store l else store
      | none => store
    (⟨store, (NestedLog.commit a.frames).1, (NestedLog.commit a.metadataFrames).1⟩, .done)
  | .rollback =>
    ({ a with frames := rollback a.frames, metadataFrames := rollback a.metadataFrames }, .done)

def runCalls (st : ClarityBackingStore S E) (deserialize : String → α) :
    List WrapperCall → EditStack S → List (WrapperReply α E) × EditStack S
  | [], a => ([], a)
  | c :: cs, a =>
    ((a.call st deserialize c).2 :: (runCalls st deserialize cs (a.call st deserialize c).1).1,
      (runCalls st deserialize cs (a.call st deserialize c).1).2)

end EditStack

/-- The wrapper's per-level edits are the logs' keys, and its lookup maps
track the live writes. -/
structure Refines {S : Type} (w : RollbackWrapper S) (a : EditStack S) : Prop where
  store : w.store = a.store
  edits : w.stack.map RollbackContext.edits = a.frames.map (List.map Prod.fst)
  metadataEdits : w.stack.map RollbackContext.metadataEdits =
    a.metadataFrames.map (List.map Prod.fst)
  lookupMap : Tracks w.lookupMap (log a.frames)
  metadataLookupMap : Tracks w.metadataLookupMap (log a.metadataFrames)

namespace Refines

variable {S E α : Type} {w : RollbackWrapper S} {a : EditStack S}

theorem new (store : S) : Refines (RollbackWrapper.new store) ⟨store, [], []⟩ where
  store := rfl
  edits := rfl
  metadataEdits := rfl
  lookupMap k := by simp [RollbackWrapper.new]
  metadataLookupMap k := by simp [RollbackWrapper.new]

theorem length_frames (h : Refines w a) : w.stack.length = a.frames.length := by
  simpa using congrArg List.length h.edits

theorem length_metadataFrames (h : Refines w a) :
    w.stack.length = a.metadataFrames.length := by
  simpa using congrArg List.length h.metadataEdits

/-- The top of a refining wrapper's stack holds the keys of the innermost logs. -/
theorem top (h : Refines w a) {c : RollbackContext} {rest : List RollbackContext}
    (hs : w.stack = c :: rest) :
    ∃ f fs g gs, a.frames = f :: fs ∧ a.metadataFrames = g :: gs ∧
      c.edits = f.map Prod.fst ∧ c.metadataEdits = g.map Prod.fst ∧
      rest.map RollbackContext.edits = fs.map (List.map Prod.fst) ∧
      rest.map RollbackContext.metadataEdits = gs.map (List.map Prod.fst) := by
  have he := h.edits
  have hm := h.metadataEdits
  rw [hs] at he hm
  cases hf : a.frames with
  | nil => simp [hf] at he
  | cons f fs =>
    cases hg : a.metadataFrames with
    | nil => simp [hg] at hm
    | cons g gs =>
      simp only [hf, hg, List.map_cons, List.cons.injEq] at he hm
      exact ⟨f, fs, g, gs, rfl, rfl, he.1, hm.1, he.2, hm.2⟩

theorem nest (h : Refines w a) :
    Refines w.nest
      { a with frames := NestedLog.nest a.frames, metadataFrames := NestedLog.nest a.metadataFrames }
    where
  store := h.store
  edits := by simp [RollbackWrapper.nest, NestedLog.nest, h.edits]
  metadataEdits := by simp [RollbackWrapper.nest, NestedLog.nest, h.metadataEdits]
  lookupMap := by simpa [RollbackWrapper.nest] using h.lookupMap
  metadataLookupMap := by simpa [RollbackWrapper.nest] using h.metadataLookupMap

theorem put (h : Refines w a) {c : RollbackContext} {rest : List RollbackContext}
    (hs : w.stack = c :: rest) (key value : String) :
    ∃ w', w.put key value = .ok w' ∧ Refines w' { a with frames := write key value a.frames } := by
  obtain ⟨f, fs, g, gs, hf, hg, hc, hcm, hr, hrm⟩ := h.top hs
  have ht := innerPut_tracks h.lookupMap c.edits key value
  generalize hp : innerPut w.lookupMap c.edits key value = p at ht
  obtain ⟨lookupMap, edits⟩ := p
  simp only at ht
  refine ⟨{ w with lookupMap, stack := { c with edits } :: rest },
    by simp [RollbackWrapper.put, hs, hp], h.store, ?_, ?_, ?_, h.metadataLookupMap⟩
  · simp [hf, write, ht.2, hc, hr]
  · simpa [hs] using h.metadataEdits
  · rw [hf, log_write, ← hf]
    exact ht.1

theorem insertMetadata (h : Refines w a) {c : RollbackContext} {rest : List RollbackContext}
    (hs : w.stack = c :: rest) (contract : QualifiedContractIdentifier) (key value : String) :
    ∃ w', w.insertMetadata contract key value = .ok w' ∧
      Refines w' { a with metadataFrames := write (contract, key) value a.metadataFrames } := by
  obtain ⟨f, fs, g, gs, hf, hg, hc, hcm, hr, hrm⟩ := h.top hs
  have ht := innerPut_tracks h.metadataLookupMap c.metadataEdits (contract, key) value
  generalize hp : innerPut w.metadataLookupMap c.metadataEdits (contract, key) value = p at ht
  obtain ⟨metadataLookupMap, metadataEdits⟩ := p
  simp only at ht
  refine ⟨{ w with metadataLookupMap, stack := { c with metadataEdits } :: rest },
    by simp [RollbackWrapper.insertMetadata, hs, hp], h.store, ?_, ?_, h.lookupMap, ?_⟩
  · simpa [hs] using h.edits
  · simp [hg, write, ht.2, hcm, hrm]
  · rw [hg, log_write, ← hg]
    exact ht.1

theorem get (h : Refines w a) {c : RollbackContext} {rest : List RollbackContext}
    (hs : w.stack = c :: rest) (st : ClarityBackingStore S E) (deserialize : String → α)
    (key : String) :
    w.get st deserialize key = .ok (match read a.frames key with
      | some v => some (deserialize v)
      | none => (st.get a.store key).map deserialize) := by
  have hl := h.lookupMap.last key
  simp only [RollbackWrapper.get, hs, hl, NestedLog.read, h.store]
  cases lastWrite (log a.frames) key <;> rfl

theorem getMetadata (h : Refines w a) {c : RollbackContext} {rest : List RollbackContext}
    (hs : w.stack = c :: rest) (st : ClarityBackingStore S E)
    (contract : QualifiedContractIdentifier) (key : String) :
    w.getMetadata st contract key = .ok (match read a.metadataFrames (contract, key) with
      | some v => .ok (some v)
      | none => st.getMetadata a.store contract key) := by
  have hl := h.metadataLookupMap.last (contract, key)
  simp only [RollbackWrapper.getMetadata, hs, hl, NestedLog.read, h.store]
  cases lastWrite (log a.metadataFrames) (contract, key) <;> rfl

theorem hasEntry (h : Refines w a) {c : RollbackContext} {rest : List RollbackContext}
    (hs : w.stack = c :: rest) (st : ClarityBackingStore S E) (key : String) :
    w.hasEntry st key = .ok ((read a.frames key).isSome || st.hasEntry a.store key) := by
  have hc := h.lookupMap.contains key
  have hsome : (read a.frames key).isSome = !(history (log a.frames) key).isEmpty := by
    simp only [NestedLog.read, lastWrite]
    cases history (log a.frames) key <;> simp
  simp only [RollbackWrapper.hasEntry, hs, hc, hsome, h.store]
  cases (history (log a.frames) key).isEmpty <;> rfl

theorem rollback (h : Refines w a) {c : RollbackContext} {rest : List RollbackContext}
    (hs : w.stack = c :: rest) :
    ∃ w', w.rollback = .ok w' ∧ Refines w'
      { a with frames := NestedLog.rollback a.frames,
               metadataFrames := NestedLog.rollback a.metadataFrames } := by
  obtain ⟨f, fs, g, gs, hf, hg, hc, hcm, hr, hrm⟩ := h.top hs
  have hl : Tracks w.lookupMap (log fs ++ f) := by simpa [hf] using h.lookupMap
  have hml : Tracks w.metadataLookupMap (log gs ++ g) := by simpa [hg] using h.metadataLookupMap
  obtain ⟨m, hm, hmt⟩ := rollbackEdits_tracks hl
  obtain ⟨m', hm', hmt'⟩ := rollbackEdits_tracks hml
  refine ⟨{ w with lookupMap := m, metadataLookupMap := m', stack := rest }, ?_, h.store,
    ?_, ?_, ?_, ?_⟩
  · simp [RollbackWrapper.rollback, hs, hc, hcm, hm, hm']
  · simpa [hf, NestedLog.rollback] using hr
  · simpa [hg, NestedLog.rollback] using hrm
  · simpa [hf, NestedLog.rollback] using hmt
  · simpa [hg, NestedLog.rollback] using hmt'

theorem commit (h : Refines w a) {c : RollbackContext} {rest : List RollbackContext}
    (hs : w.stack = c :: rest) (st : ClarityBackingStore S E) (deserialize : String → α) :
    ∃ w', w.commit st = .ok w' ∧ Refines w' (a.call st deserialize .commit).1 := by
  obtain ⟨f, fs, g, gs, hf, hg, hc, hcm, hr, hrm⟩ := h.top hs
  cases rest with
  | nil =>
    have hfs : fs = [] := by cases fs <;> simp_all
    have hgs : gs = [] := by cases gs <;> simp_all
    subst hfs hgs
    have hl : Tracks w.lookupMap f := by simpa [hf] using h.lookupMap
    have hml : Tracks w.metadataLookupMap g := by simpa [hg] using h.metadataLookupMap
    obtain ⟨m, hm, hmt⟩ := rollbackCheckPreBottomCommit_tracks hl
    obtain ⟨m', hm', hmt'⟩ := rollbackCheckPreBottomCommit_tracks hml
    let store := if f.length > 0 then st.putAll w.store f else w.store
    refine ⟨⟨if g.length > 0 then st.putAllMetadata store g else store, m, m', []⟩,
      by simp [RollbackWrapper.commit, hs, hc, hcm, hm, hm', store], ?_, ?_, ?_, ?_, ?_⟩
    · simp [EditStack.call, hf, hg, NestedLog.commit, store, h.store]
    · simp [EditStack.call, hf, NestedLog.commit]
    · simp [EditStack.call, hg, NestedLog.commit]
    · simpa [EditStack.call, hf, NestedLog.commit] using hmt
    · simpa [EditStack.call, hg, NestedLog.commit] using hmt'
  | cons c' rest =>
    cases fs with
    | nil => simp at hr
    | cons f' fs =>
      cases gs with
      | nil => simp at hrm
      | cons g' gs =>
        simp only [List.map_cons, List.cons.injEq] at hr hrm
        refine ⟨{ w with stack := ⟨c'.edits ++ c.edits, c'.metadataEdits ++ c.metadataEdits⟩ :: rest },
          by simp [RollbackWrapper.commit, hs], ?_, ?_, ?_, ?_, ?_⟩
        · simp [EditStack.call, hf, hg, NestedLog.commit, h.store]
        · simp [EditStack.call, hf, NestedLog.commit, hc, hr.1, hr.2]
        · simp [EditStack.call, hg, NestedLog.commit, hcm, hrm.1, hrm.2]
        · simpa [EditStack.call, hf, NestedLog.commit] using h.lookupMap
        · simpa [EditStack.call, hg, NestedLog.commit] using h.metadataLookupMap

/-- Every call issued with a context open succeeds as the specification says. -/
theorem call (h : Refines w a) (st : ClarityBackingStore S E) (deserialize : String → α)
    (c : WrapperCall) (hs : c ≠ .nest → w.stack ≠ []) :
    ∃ w', w.call st deserialize c = .ok (w', (a.call st deserialize c).2) ∧
      Refines w' (a.call st deserialize c).1 := by
  cases c with
  | nest => exact ⟨w.nest, rfl, h.nest⟩
  | put key value =>
    obtain ⟨top, rest, hcs⟩ := List.exists_cons_of_ne_nil (hs (by simp))
    obtain ⟨w', hput, hw'⟩ := h.put hcs key value
    exact ⟨w', by simp [RollbackWrapper.call, hput, EditStack.call], hw'⟩
  | insertMetadata contract key value =>
    obtain ⟨top, rest, hcs⟩ := List.exists_cons_of_ne_nil (hs (by simp))
    obtain ⟨w', hput, hw'⟩ := h.insertMetadata hcs contract key value
    exact ⟨w', by simp [RollbackWrapper.call, hput, EditStack.call], hw'⟩
  | get key =>
    obtain ⟨top, rest, hcs⟩ := List.exists_cons_of_ne_nil (hs (by simp))
    exact ⟨w, by simp [RollbackWrapper.call, h.get hcs st deserialize key, EditStack.call], h⟩
  | getMetadata contract key =>
    obtain ⟨top, rest, hcs⟩ := List.exists_cons_of_ne_nil (hs (by simp))
    exact ⟨w, by simp [RollbackWrapper.call, h.getMetadata hcs st contract key, EditStack.call], h⟩
  | hasEntry key =>
    obtain ⟨top, rest, hcs⟩ := List.exists_cons_of_ne_nil (hs (by simp))
    exact ⟨w, by simp [RollbackWrapper.call, h.hasEntry hcs st key, EditStack.call], h⟩
  | commit =>
    obtain ⟨top, rest, hcs⟩ := List.exists_cons_of_ne_nil (hs (by simp))
    obtain ⟨w', hcommit, hw'⟩ := h.commit hcs st deserialize
    exact ⟨w', by simp [RollbackWrapper.call, hcommit, EditStack.call], hw'⟩
  | rollback =>
    obtain ⟨top, rest, hcs⟩ := List.exists_cons_of_ne_nil (hs (by simp))
    obtain ⟨w', hrb, hw'⟩ := h.rollback hcs
    exact ⟨w', by simp [RollbackWrapper.call, hrb, EditStack.call], hw'⟩

theorem call_emptyStack (hs : w.stack = []) (st : ClarityBackingStore S E)
    (deserialize : String → α) {c : WrapperCall} (hc : c ≠ .nest) :
    w.call st deserialize c = .error .emptyStack := by
  cases c <;> simp_all [RollbackWrapper.call, RollbackWrapper.put, RollbackWrapper.insertMetadata,
    RollbackWrapper.get, RollbackWrapper.getMetadata, RollbackWrapper.hasEntry,
    RollbackWrapper.commit, RollbackWrapper.rollback]

/-- **Runs refine the specification.** Up to the first panic the wrapper gives
the specification's replies; that panic can only be an empty stack; and a run
that ends still refines the specification's final state. -/
theorem runCalls (h : Refines w a) (st : ClarityBackingStore S E) (deserialize : String → α)
    (calls : List WrapperCall) :
    (w.runCalls st deserialize calls).1 <+: (a.runCalls st deserialize calls).1 ∧
      (∀ p, (w.runCalls st deserialize calls).2 = .error p → p = .emptyStack) ∧
      (∀ w', (w.runCalls st deserialize calls).2 = .ok w' →
        (w.runCalls st deserialize calls).1 = (a.runCalls st deserialize calls).1 ∧
          Refines w' (a.runCalls st deserialize calls).2) := by
  induction calls generalizing w a with
  | nil =>
    refine ⟨List.prefix_refl _, ?_, ?_⟩
    · intro p hp
      cases hp
    · intro w' hw'
      cases hw'
      exact ⟨rfl, h⟩
  | cons c cs ih =>
    by_cases hs : c ≠ .nest → w.stack ≠ []
    · obtain ⟨w', hcall, hw'⟩ := h.call st deserialize c hs
      obtain ⟨hpre, herr, hok⟩ := ih hw'
      simp only [RollbackWrapper.runCalls, hcall, EditStack.runCalls]
      refine ⟨List.cons_prefix_cons.mpr ⟨rfl, hpre⟩, herr, ?_⟩
      intro w'' hw''
      obtain ⟨hrep, hfin⟩ := hok w'' hw''
      exact ⟨by rw [hrep], hfin⟩
    · have hc : c ≠ .nest := fun hn => hs (fun hc => absurd hn hc)
      have hnil : w.stack = [] := by
        by_contra hne
        exact hs (fun _ => hne)
      simp only [RollbackWrapper.runCalls, call_emptyStack hnil st deserialize hc]
      refine ⟨List.nil_prefix, ?_, ?_⟩
      · intro p hp
        cases hp
        rfl
      · intro w' hw'
        cases hw'

end Refines

namespace WrapperCall

/-- The number of open contexts after a call that does not panic. -/
def depthAfter : WrapperCall → Nat → Nat
  | .nest, d => d + 1
  | .commit, d => d - 1
  | .rollback, d => d - 1
  | _, d => d

def depthAfterAll : List WrapperCall → Nat → Nat
  | [], d => d
  | c :: cs, d => depthAfterAll cs (c.depthAfter d)

/-- Every call other than `nest` finds a context open. -/
def OnContext : List WrapperCall → Nat → Prop
  | [], _ => True
  | c :: cs, d => (c ≠ .nest → 0 < d) ∧ OnContext cs (c.depthAfter d)

/-- After every call more than `d` contexts are open. -/
def StaysAbove (d : Nat) : List WrapperCall → Nat → Prop
  | [], _ => True
  | c :: cs, n => d < c.depthAfter n ∧ StaysAbove d cs (c.depthAfter n)

/-- What a call does to the data logs. -/
def frameStep : WrapperCall → Frames String String → Frames String String
  | .nest => NestedLog.nest
  | .put key value => write key value
  | .commit => fun fs => (NestedLog.commit fs).1
  | .rollback => NestedLog.rollback
  | _ => id

/-- What a call does to the metadata logs. -/
def metadataStep : WrapperCall → Frames MetadataKey String → Frames MetadataKey String
  | .nest => NestedLog.nest
  | .insertMetadata contract key value => write (contract, key) value
  | .commit => fun fs => (NestedLog.commit fs).1
  | .rollback => NestedLog.rollback
  | _ => id

theorem isStep_frameStep (c : WrapperCall) : IsStep c.frameStep := by
  cases c
  case nest => exact .nest
  case put key value => exact .write key value
  case commit => exact .commit
  case rollback => exact .rollback
  all_goals exact .skip

theorem isStep_metadataStep (c : WrapperCall) : IsStep c.metadataStep := by
  cases c
  case nest => exact .nest
  case insertMetadata contract key value => exact .write (contract, key) value
  case commit => exact .commit
  case rollback => exact .rollback
  all_goals exact .skip

theorem length_frameStep (c : WrapperCall) (fs : Frames String String) :
    (c.frameStep fs).length = c.depthAfter fs.length := by
  cases c <;> simp [frameStep, depthAfter, length_commit]

theorem length_metadataStep (c : WrapperCall) (fs : Frames MetadataKey String) :
    (c.metadataStep fs).length = c.depthAfter fs.length := by
  cases c <;> simp [metadataStep, depthAfter, length_commit]

end WrapperCall

namespace EditStack

variable {S E α : Type}

@[simp] theorem call_frames (st : ClarityBackingStore S E) (deserialize : String → α)
    (a : EditStack S) (c : WrapperCall) :
    (a.call st deserialize c).1.frames = c.frameStep a.frames := by
  cases c <;> rfl

@[simp] theorem call_metadataFrames (st : ClarityBackingStore S E) (deserialize : String → α)
    (a : EditStack S) (c : WrapperCall) :
    (a.call st deserialize c).1.metadataFrames = c.metadataStep a.metadataFrames := by
  cases c <;> rfl

theorem runCalls_frames (st : ClarityBackingStore S E) (deserialize : String → α)
    (calls : List WrapperCall) (a : EditStack S) :
    (a.runCalls st deserialize calls).2.frames =
      NestedLog.run (calls.map WrapperCall.frameStep) a.frames := by
  induction calls generalizing a with
  | nil => rfl
  | cons c cs ih => simp [runCalls, NestedLog.run, ih]

theorem runCalls_metadataFrames (st : ClarityBackingStore S E) (deserialize : String → α)
    (calls : List WrapperCall) (a : EditStack S) :
    (a.runCalls st deserialize calls).2.metadataFrames =
      NestedLog.run (calls.map WrapperCall.metadataStep) a.metadataFrames := by
  induction calls generalizing a with
  | nil => rfl
  | cons c cs ih => simp [runCalls, NestedLog.run, ih]

theorem runCalls_append (st : ClarityBackingStore S E) (deserialize : String → α)
    (cs cs' : List WrapperCall) (a : EditStack S) :
    (a.runCalls st deserialize (cs ++ cs')).2 =
      ((a.runCalls st deserialize cs).2.runCalls st deserialize cs').2 := by
  induction cs generalizing a with
  | nil => rfl
  | cons c cs ih => simp [runCalls, ih]

/-- Only the commit of the outermost context writes to the store. -/
theorem call_store (st : ClarityBackingStore S E) (deserialize : String → α) (a : EditStack S)
    (c : WrapperCall) (hlen : a.frames.length = a.metadataFrames.length)
    (hdeep : 0 < c.depthAfter a.frames.length) :
    (a.call st deserialize c).1.store = a.store := by
  cases c with
  | commit =>
    obtain ⟨store, frames, metadataFrames⟩ := a
    match frames, metadataFrames, hlen with
    | _ :: _ :: _, _ :: _ :: _, _ => rfl
    | [], _, _ => simp [WrapperCall.depthAfter] at hdeep
    | [_], _, _ => simp [WrapperCall.depthAfter] at hdeep
  | _ => rfl

theorem runCalls_store (st : ClarityBackingStore S E) (deserialize : String → α) (d : Nat)
    (calls : List WrapperCall) (a : EditStack S) (hlen : a.frames.length = a.metadataFrames.length)
    (habove : WrapperCall.StaysAbove d calls a.frames.length) :
    (a.runCalls st deserialize calls).2.store = a.store := by
  induction calls generalizing a with
  | nil => rfl
  | cons c cs ih =>
    obtain ⟨hd, hrest⟩ := habove
    have hlen' : (a.call st deserialize c).1.frames.length =
        (a.call st deserialize c).1.metadataFrames.length := by
      simp [WrapperCall.length_frameStep, WrapperCall.length_metadataStep, hlen]
    have hrest' : WrapperCall.StaysAbove d cs (a.call st deserialize c).1.frames.length := by
      simpa [WrapperCall.length_frameStep] using hrest
    simp only [runCalls]
    rw [ih _ hlen' hrest', call_store st deserialize a c hlen (by omega)]

end EditStack

namespace WrapperCall

theorem onContext_append (cs cs' : List WrapperCall) (n : Nat) :
    OnContext (cs ++ cs') n ↔ OnContext cs n ∧ OnContext cs' (depthAfterAll cs n) := by
  induction cs generalizing n with
  | nil => simp [OnContext, depthAfterAll]
  | cons c cs ih => simp [OnContext, depthAfterAll, ih, and_assoc]

theorem onContext_of_staysAbove {d : Nat} {cs : List WrapperCall} {n : Nat}
    (h : StaysAbove d cs n) (hn : 0 < n) : OnContext cs n := by
  induction cs generalizing n with
  | nil => trivial
  | cons c cs ih => exact ⟨fun _ => hn, ih h.2 (by have := h.1; omega)⟩

theorem above_frameStep {d : Nat} {cs : List WrapperCall} {fs : Frames String String}
    (h : StaysAbove d cs fs.length) : NestedLog.Above d (cs.map frameStep) fs := by
  induction cs generalizing fs with
  | nil => trivial
  | cons c cs ih =>
    obtain ⟨hd, hrest⟩ := h
    rw [← length_frameStep] at hd hrest
    exact ⟨hd, ih hrest⟩

theorem above_metadataStep {d : Nat} {cs : List WrapperCall} {fs : Frames MetadataKey String}
    (h : StaysAbove d cs fs.length) : NestedLog.Above d (cs.map metadataStep) fs := by
  induction cs generalizing fs with
  | nil => trivial
  | cons c cs ih =>
    obtain ⟨hd, hrest⟩ := h
    rw [← length_metadataStep] at hd hrest
    exact ⟨hd, ih hrest⟩

theorem length_run_frameStep (cs : List WrapperCall) (fs : Frames String String) :
    (NestedLog.run (cs.map frameStep) fs).length = depthAfterAll cs fs.length := by
  induction cs generalizing fs with
  | nil => rfl
  | cons c cs ih => simp [NestedLog.run, depthAfterAll, ih, length_frameStep]

theorem length_run_metadataStep (cs : List WrapperCall) (fs : Frames MetadataKey String) :
    (NestedLog.run (cs.map metadataStep) fs).length = depthAfterAll cs fs.length := by
  induction cs generalizing fs with
  | nil => rfl
  | cons c cs ih => simp [NestedLog.run, depthAfterAll, ih, length_metadataStep]

end WrapperCall

namespace EditStack

variable {S E α : Type}

/-- On the specification, a `nest`, calls that never close it, and its
`rollback` leave the state as it was. -/
theorem runCalls_matching (st : ClarityBackingStore S E) (deserialize : String → α)
    (a : EditStack S) (hlen : a.frames.length = a.metadataFrames.length) (inner : List WrapperCall)
    (habove : WrapperCall.StaysAbove a.frames.length inner (a.frames.length + 1))
    (hback : WrapperCall.depthAfterAll inner (a.frames.length + 1) = a.frames.length + 1) :
    (a.runCalls st deserialize (.nest :: inner ++ [.rollback])).2 = a := by
  have hnest : WrapperCall.StaysAbove a.frames.length (.nest :: inner) a.frames.length :=
    ⟨by simp [WrapperCall.depthAfter], habove⟩
  apply EditStack.ext
  · rw [runCalls_append]
    exact runCalls_store st deserialize _ _ a hlen hnest
  · have hab : Above a.frames.length (inner.map WrapperCall.frameStep) (NestedLog.nest a.frames) :=
      WrapperCall.above_frameStep (by simpa using habove)
    have hdepth := WrapperCall.length_run_frameStep inner (NestedLog.nest a.frames)
    rw [NestedLog.length_nest, hback] at hdepth
    have hm := rollback_matching (List.forall_mem_map.mpr fun c _ => WrapperCall.isStep_frameStep c)
      a.frames hab hdepth
    simpa [runCalls_frames, NestedLog.run, WrapperCall.frameStep] using hm
  · rw [hlen] at habove hback
    have hab : Above a.metadataFrames.length (inner.map WrapperCall.metadataStep)
        (NestedLog.nest a.metadataFrames) :=
      WrapperCall.above_metadataStep (by simpa using habove)
    have hdepth := WrapperCall.length_run_metadataStep inner (NestedLog.nest a.metadataFrames)
    rw [NestedLog.length_nest, hback] at hdepth
    have hm := rollback_matching
      (List.forall_mem_map.mpr fun c _ => WrapperCall.isStep_metadataStep c) a.metadataFrames hab
      hdepth
    simpa [runCalls_metadataFrames, NestedLog.run, WrapperCall.metadataStep] using hm

end EditStack

namespace Refines

variable {S E α : Type} {w : RollbackWrapper S} {a : EditStack S}

theorem length_call (h : Refines w a) (st : ClarityBackingStore S E) (deserialize : String → α)
    {c : WrapperCall} {w' : RollbackWrapper S} (hw' : Refines w' (a.call st deserialize c).1) :
    w'.stack.length = c.depthAfter w.stack.length := by
  rw [hw'.length_frames, EditStack.call_frames, WrapperCall.length_frameStep, h.length_frames]

/-- Calls that each find a context open, when they need one, never panic. -/
theorem runCalls_ok (h : Refines w a) (st : ClarityBackingStore S E) (deserialize : String → α)
    (calls : List WrapperCall) (hon : WrapperCall.OnContext calls w.stack.length) :
    ∃ w', (w.runCalls st deserialize calls).2 = .ok w' := by
  induction calls generalizing w a with
  | nil => exact ⟨w, rfl⟩
  | cons c cs ih =>
    obtain ⟨hc, hcs⟩ := hon
    have hs : c ≠ .nest → w.stack ≠ [] := fun hn => by
      have := hc hn
      intro hnil
      simp [hnil] at this
    obtain ⟨w', hcall, hw'⟩ := h.call st deserialize c hs
    obtain ⟨w'', hrun⟩ := ih hw' (by rw [h.length_call st deserialize hw']; exact hcs)
    exact ⟨w'', by simp [RollbackWrapper.runCalls, hcall, hrun]⟩

/-- **A rollback restores what its matching nest saw.** If the calls between a
`nest` and a `rollback` never close the context the `nest` opened, and leave
exactly that context open, the rollback returns every lookup of both maps, the
store and the depth to what they were before the `nest`. -/
theorem rollback_restores (h : Refines w a) (st : ClarityBackingStore S E)
    (deserialize : String → α) (inner : List WrapperCall)
    (habove : WrapperCall.StaysAbove w.stack.length inner (w.stack.length + 1))
    (hback : WrapperCall.depthAfterAll inner (w.stack.length + 1) = w.stack.length + 1) :
    ∃ w', (w.runCalls st deserialize (.nest :: inner ++ [.rollback])).2 = .ok w' ∧
      w'.stack.length = w.stack.length ∧ w'.store = w.store ∧
      (∀ k : String, w'.lookupMap[k]? = w.lookupMap[k]?) ∧
      (∀ k : MetadataKey, w'.metadataLookupMap[k]? = w.metadataLookupMap[k]?) := by
  have hon : WrapperCall.OnContext (.nest :: inner ++ [.rollback]) w.stack.length := by
    rw [WrapperCall.onContext_append]
    refine ⟨⟨fun hn => absurd rfl hn, WrapperCall.onContext_of_staysAbove habove (by simp [WrapperCall.depthAfter])⟩,
      fun _ => ?_, trivial⟩
    simp [WrapperCall.depthAfterAll, WrapperCall.depthAfter, hback]
  obtain ⟨w', hok⟩ := h.runCalls_ok st deserialize _ hon
  have hspec := EditStack.runCalls_matching st deserialize a
    (by rw [← h.length_frames, ← h.length_metadataFrames]) inner
    (by rwa [← h.length_frames]) (by rwa [← h.length_frames])
  obtain ⟨-, -, hfin⟩ := h.runCalls st deserialize (.nest :: inner ++ [.rollback])
  have hw' : Refines w' a := hspec ▸ (hfin w' hok).2
  refine ⟨w', hok, by rw [hw'.length_frames, h.length_frames], by rw [hw'.store, h.store],
    fun k => ?_, fun k => ?_⟩
  · rw [hw'.lookupMap k, h.lookupMap k]
  · rw [hw'.metadataLookupMap k, h.metadataLookupMap k]

/-- The outermost commit hands the whole live log to `put_all`, in write order. -/
theorem commit_bottom (h : Refines w a) (hs : w.stack.length = 1) (st : ClarityBackingStore S E) :
    ∃ w', w.commit st = .ok w' ∧ w'.stack = [] ∧
      w'.store =
        (let store := if (log a.frames).length > 0 then st.putAll w.store (log a.frames)
          else w.store
        if (log a.metadataFrames).length > 0 then
          st.putAllMetadata store (log a.metadataFrames) else store) := by
  obtain ⟨c, hc⟩ := List.length_eq_one_iff.mp hs
  obtain ⟨f, fs, g, gs, hf, hg, -, -, hr, hrm⟩ := h.top hc
  have hfs : fs = [] := by simpa using hr.symm
  have hgs : gs = [] := by simpa using hrm.symm
  subst hfs hgs
  obtain ⟨w', hcommit, hw'⟩ := h.commit hc st id
  refine ⟨w', hcommit, ?_, ?_⟩
  · have hlen := hw'.length_frames
    simp only [EditStack.call_frames, WrapperCall.frameStep, hf, NestedLog.commit,
      List.length_nil] at hlen
    exact List.eq_nil_of_length_eq_zero hlen
  · rw [hw'.store, h.store]
    simp [EditStack.call, hf, hg, NestedLog.commit]

end Refines

variable {S E α : Type}

/-- **The rollback wrapper implements nested write logs.** Started on a store,
every sequence of calls gives the replies of `EditStack` until its first panic,
and the only panic is a call made with no context open: a read sees the newest
put still live, else the store. From every state a run reaches, a `nest`
whose inner calls keep it open is undone by its `rollback`, down to every
lookup of both maps; and the commit that empties the stack hands `put_all` the
live writes in write order, so that applying them leaves each key at its newest
live value. -/
theorem rollbackWrapper_refines_editStack (st : ClarityBackingStore S E)
    (deserialize : String → α) (store : S) (calls : List WrapperCall) :
    let run := (RollbackWrapper.new store).runCalls st deserialize calls
    let spec := (EditStack.mk store [] []).runCalls st deserialize calls
    run.1 <+: spec.1 ∧ (∀ p, run.2 = .error p → p = .emptyStack) ∧
    ∀ w, run.2 = .ok w → run.1 = spec.1 ∧
      (∀ inner : List WrapperCall, WrapperCall.StaysAbove w.depth inner (w.depth + 1) →
        WrapperCall.depthAfterAll inner (w.depth + 1) = w.depth + 1 →
        ∃ w', (w.runCalls st deserialize (.nest :: inner ++ [.rollback])).2 = .ok w' ∧
          w'.depth = w.depth ∧ w'.store = w.store ∧
          (∀ k : String, w'.lookupMap[k]? = w.lookupMap[k]?) ∧
          (∀ k : MetadataKey, w'.metadataLookupMap[k]? = w.metadataLookupMap[k]?)) ∧
      (w.depth = 1 → ∃ w', w.commit st = .ok w' ∧ w'.depth = 0 ∧
        w'.store =
          (let store := if (log spec.2.frames).length > 0 then
              st.putAll w.store (log spec.2.frames) else w.store
            if (log spec.2.metadataFrames).length > 0 then
              st.putAllMetadata store (log spec.2.metadataFrames) else store) ∧
        ∀ (m : Std.HashMap String String) (k : String),
          ((log spec.2.frames).foldl (fun m e => m.insert e.1 e.2) m)[k]? =
            (NestedLog.read spec.2.frames k).or m[k]?) := by
  intro run spec
  obtain ⟨hpre, herr, hok⟩ := (Refines.new store).runCalls st deserialize calls
  refine ⟨hpre, herr, fun w hw => ?_⟩
  obtain ⟨hreplies, hrefines⟩ := hok w hw
  refine ⟨hreplies, fun inner habove hback => hrefines.rollback_restores st deserialize inner
    habove hback, fun hdepth => ?_⟩
  obtain ⟨w', hcommit, hempty, hstore⟩ := hrefines.commit_bottom hdepth st
  refine ⟨w', hcommit, by simp [RollbackWrapper.depth, hempty], hstore, fun m k => ?_⟩
  exact apply_log _ m k

end BlockstackCore
