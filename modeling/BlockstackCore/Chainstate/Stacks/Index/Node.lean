import BlockstackCore.Chainstate.Stacks.Index.Proofs

/-!
# The child maps of trie nodes

A MARF trie node (`chainstate/stacks/index/node.rs`) maps path bytes to child
pointers. `TrieNode4` and `TrieNode16` keep their children in 4 and 16 slots
that `walk`, `insert` and `replace` scan in slot order; a slot whose pointer has
id `TrieNodeID::Empty` is free. `TrieNode48` keeps 48 slots and an index array
of 256 `i8`s from path byte to slot, negative for no child. `TrieNode256` keeps
one slot per path byte.

Each fixed array is a list with its length as a field. `TrieNode48` also carries
the bound that `from_bytes` checks for its indexes (every index is below 48), so
the code's `ptrs[i as usize]` never leaves the array. `insert` and `replace` take
`&mut self` and return whether they wrote; here they return the flag and the
node after the call.

A node's child map is `walk`, a function from path bytes to pointers. The laws
below say that `insert` and `replace` update that function at the pointer's
byte, and which promotions keep it.
-/

namespace BlockstackCore

namespace TrieNodeID

def Leaf : UInt8 := 1

def Node4 : UInt8 := 2

def Node16 : UInt8 := 3

def Node48 : UInt8 := 4

def Node256 : UInt8 := 5

end TrieNodeID

/-- A child pointer: the child's node id (with the back-pointer bit), the path
byte it sits at, its storage pointer and its block. -/
structure TriePtr where
  id : UInt8
  chr : UInt8
  ptr : UInt32
  backBlock : UInt32
  deriving DecidableEq, Repr

namespace TriePtr

/-- `TriePtr::default()`: an empty pointer at byte 0. -/
def default : TriePtr := ⟨0, 0, 0, 0⟩

/-- The test every scan makes: a pointer whose id is not `Empty`. -/
def IsLive (p : TriePtr) : Prop := p.id ≠ TrieNodeID.Empty

instance (p : TriePtr) : Decidable p.IsLive := inferInstanceAs (Decidable (p.id ≠ _))

theorem not_isLive_default : ¬ TriePtr.default.IsLive := by decide

end TriePtr

/-! ### Nodes scanned in slot order -/

/-- `TrieNode4` and `TrieNode16`: a compressed path and `n` child slots. -/
structure ScanNode (n : Nat) where
  path : List UInt8
  ptrs : List TriePtr
  length_ptrs : ptrs.length = n
  deriving DecidableEq, Repr

abbrev TrieNode4 := ScanNode 4

abbrev TrieNode16 := ScanNode 16

/-- `walk` of `TrieNode4` and `TrieNode16`: the first live slot at the byte. -/
def scanWalk (ptrs : List TriePtr) (chr : UInt8) : Option TriePtr :=
  ptrs.find? fun p => decide (p.IsLive ∧ p.chr = chr)

/-- `replace` of `TrieNode4` and `TrieNode16`: overwrite the first live slot at
the pointer's byte. `none` is `false`, with the slots unchanged. -/
def scanReplace (ptr : TriePtr) : List TriePtr → Option (List TriePtr)
  | [] => none
  | p :: ps =>
    if p.IsLive ∧ p.chr = ptr.chr then some (ptr :: ps)
    else (scanReplace ptr ps).map (p :: ·)

/-- The second loop of `insert`: fill the first free slot. -/
def scanFill (ptr : TriePtr) : List TriePtr → Option (List TriePtr)
  | [] => none
  | p :: ps =>
    if ¬ p.IsLive then some (ptr :: ps)
    else (scanFill ptr ps).map (p :: ·)

/-- `insert` of `TrieNode4` and `TrieNode16`: `replace`, or else fill a free
slot. `none` is `false`: every slot is live and none is at the byte. -/
def scanInsert (ptr : TriePtr) (ptrs : List TriePtr) : Option (List TriePtr) :=
  match scanReplace ptr ptrs with
  | some ptrs => some ptrs
  | none => scanFill ptr ptrs

section Scan

variable {ptr : TriePtr}

theorem length_scanReplace : ∀ {ps ps' : List TriePtr}, scanReplace ptr ps = some ps' →
    ps'.length = ps.length
  | [], _, h => by simp [scanReplace] at h
  | p :: ps, ps', h => by
    unfold scanReplace at h
    split_ifs at h
    · cases h; rfl
    · obtain ⟨rest, hrest, rfl⟩ := Option.map_eq_some_iff.mp h
      simp [length_scanReplace hrest]

theorem length_scanFill : ∀ {ps ps' : List TriePtr}, scanFill ptr ps = some ps' →
    ps'.length = ps.length
  | [], _, h => by simp [scanFill] at h
  | p :: ps, ps', h => by
    by_cases hp : p.IsLive
    · rw [scanFill, if_neg (not_not.mpr hp)] at h
      obtain ⟨rest, hrest, rfl⟩ := Option.map_eq_some_iff.mp h
      simp [length_scanFill hrest]
    · rw [scanFill, if_pos hp] at h
      cases h
      rfl

theorem length_scanInsert {ps ps' : List TriePtr} (h : scanInsert ptr ps = some ps') :
    ps'.length = ps.length := by
  unfold scanInsert at h
  split at h
  · cases h; exact length_scanReplace (by assumption)
  · exact length_scanFill h

@[simp] theorem scanWalk_nil (c : UInt8) : scanWalk [] c = none := rfl

theorem scanWalk_cons (p : TriePtr) (ps : List TriePtr) (c : UInt8) :
    scanWalk (p :: ps) c = if p.IsLive ∧ p.chr = c then some p else scanWalk ps c := by
  simp only [scanWalk, List.find?_cons]
  split <;> simp_all

/-- `replace` finds a slot exactly when `walk` finds a child at the byte. -/
theorem scanReplace_eq_none_iff : ∀ {ps : List TriePtr},
    scanReplace ptr ps = none ↔ scanWalk ps ptr.chr = none
  | [] => by simp [scanReplace]
  | p :: ps => by
    rw [scanReplace, scanWalk_cons]
    split_ifs <;> simp [scanReplace_eq_none_iff]

/-- After a `replace`, `walk` gives the new pointer at its byte and what it gave
before everywhere else. -/
theorem scanWalk_scanReplace (hlive : ptr.IsLive) : ∀ {ps ps' : List TriePtr},
    scanReplace ptr ps = some ps' →
      scanWalk ps' = Function.update (scanWalk ps) ptr.chr (some ptr)
  | [], _, h => by simp [scanReplace] at h
  | p :: ps, ps', h => by
    funext c
    unfold scanReplace at h
    split_ifs at h with hp
    -- this slot held the byte: it now holds the pointer
    · cases h
      by_cases hc : c = ptr.chr
      · subst hc
        simp [scanWalk_cons, hlive]
      · have hpc : ¬ (p.IsLive ∧ p.chr = c) := fun h' => hc (h'.2.symm.trans hp.2)
        simp [scanWalk_cons, hc, Ne.symm hc, hpc]
    -- the slot is kept, and the rest of the slots are replaced
    · obtain ⟨rest, hrest, rfl⟩ := Option.map_eq_some_iff.mp h
      have ih := congrFun (scanWalk_scanReplace hlive hrest) c
      by_cases hc : c = ptr.chr
      · subst hc
        simp [scanWalk_cons, hp, ih]
      · simp only [scanWalk_cons, ih, Function.update_of_ne hc]

/-- `insert`'s second loop fails exactly when every slot is live. -/
theorem scanFill_eq_none_iff : ∀ {ps : List TriePtr}, scanFill ptr ps = none ↔ ∀ p ∈ ps, p.IsLive
  | [] => by simp [scanFill]
  | p :: ps => by
    rw [scanFill]
    split_ifs with hp <;> simp [hp, scanFill_eq_none_iff]

/-- Filling a free slot, when `walk` found nothing at the byte, adds the child. -/
theorem scanWalk_scanFill (hlive : ptr.IsLive) : ∀ {ps ps' : List TriePtr},
    scanWalk ps ptr.chr = none → scanFill ptr ps = some ps' →
      scanWalk ps' = Function.update (scanWalk ps) ptr.chr (some ptr)
  | [], _, _, h => by simp [scanFill] at h
  | p :: ps, ps', hnone, h => by
    funext c
    rw [scanWalk_cons] at hnone
    have hp : ¬ (p.IsLive ∧ p.chr = ptr.chr) := by
      intro hp
      simp [hp] at hnone
    simp only [hp, if_false] at hnone
    by_cases hfree : p.IsLive
    -- a live slot is kept, and the pointer goes further along
    · rw [scanFill, if_neg (not_not.mpr hfree)] at h
      obtain ⟨rest, hrest, rfl⟩ := Option.map_eq_some_iff.mp h
      have ih := congrFun (scanWalk_scanFill hlive hnone hrest) c
      by_cases hc : c = ptr.chr
      · subst hc
        simp [scanWalk_cons, hp, ih]
      · simp only [scanWalk_cons, ih, Function.update_of_ne hc]
    -- a free slot: the pointer goes here, and no later slot had the byte
    · rw [scanFill, if_pos hfree] at h
      cases h
      by_cases hc : c = ptr.chr
      · subst hc
        simp [scanWalk_cons, hlive]
      · simp [scanWalk_cons, hc, Ne.symm hc, hfree]

theorem scanWalk_scanInsert (hlive : ptr.IsLive) {ps ps' : List TriePtr}
    (h : scanInsert ptr ps = some ps') :
    scanWalk ps' = Function.update (scanWalk ps) ptr.chr (some ptr) := by
  unfold scanInsert at h
  split at h
  · cases h
    exact scanWalk_scanReplace hlive (by assumption)
  · exact scanWalk_scanFill hlive (scanReplace_eq_none_iff.mp (by assumption)) h

/-- `insert` fails exactly when every slot is live and `walk` finds nothing at
the byte. -/
theorem scanInsert_eq_none_iff {ps : List TriePtr} :
    scanInsert ptr ps = none ↔ (∀ p ∈ ps, p.IsLive) ∧ scanWalk ps ptr.chr = none := by
  unfold scanInsert
  split
  · rename_i h
    simp only [reduceCtorEq, false_iff, not_and]
    intro _ hnone
    rw [← scanReplace_eq_none_iff] at hnone
    simp [hnone] at h
  · rename_i h
    rw [scanFill_eq_none_iff, scanReplace_eq_none_iff.mp h]
    simp

end Scan

namespace ScanNode

variable {n : Nat}

/-- `TrieNode4::new` and `TrieNode16::new`: every slot empty. -/
def new (path : List UInt8) : ScanNode n := ⟨path, List.replicate n TriePtr.default, by simp⟩

def walk (node : ScanNode n) (chr : UInt8) : Option TriePtr := scanWalk node.ptrs chr

def replace (node : ScanNode n) (ptr : TriePtr) : Bool × ScanNode n :=
  match h : scanReplace ptr node.ptrs with
  | some ptrs => (true, ⟨node.path, ptrs, (length_scanReplace h).trans node.length_ptrs⟩)
  | none => (false, node)

def insert (node : ScanNode n) (ptr : TriePtr) : Bool × ScanNode n :=
  match h : scanInsert ptr node.ptrs with
  | some ptrs => (true, ⟨node.path, ptrs, (length_scanInsert h).trans node.length_ptrs⟩)
  | none => (false, node)

/-- `insert` of a live pointer makes it the child at its byte. -/
theorem walk_insert (node : ScanNode n) {ptr : TriePtr} (hlive : ptr.IsLive)
    (hins : (node.insert ptr).1 = true) :
    (node.insert ptr).2.walk = Function.update node.walk ptr.chr (some ptr) := by
  unfold insert at hins ⊢
  split
  · rename_i h
    exact scanWalk_scanInsert hlive h
  · split at hins <;> simp_all

/-- `insert` returns `false` only on a node whose slots are all live, none at
the byte, and then leaves it as it was. -/
theorem insert_eq_false (node : ScanNode n) (ptr : TriePtr) (hins : (node.insert ptr).1 = false) :
    (∀ p ∈ node.ptrs, p.IsLive) ∧ node.walk ptr.chr = none ∧ (node.insert ptr).2 = node := by
  have hnone : scanInsert ptr node.ptrs = none := by
    unfold insert at hins
    split at hins
    · simp at hins
    · assumption
  obtain ⟨hall, hwalk⟩ := scanInsert_eq_none_iff.mp hnone
  refine ⟨hall, hwalk, ?_⟩
  unfold insert
  split
  · rename_i h
    rw [hnone] at h
    cases h
  · rfl

/-- `replace` of a live pointer makes it the child at its byte when there was
one, and otherwise changes nothing. -/
theorem walk_replace (node : ScanNode n) {ptr : TriePtr} (hlive : ptr.IsLive) :
    (node.replace ptr).2.walk =
      if node.walk ptr.chr = none then node.walk
      else Function.update node.walk ptr.chr (some ptr) := by
  unfold replace
  split
  · rename_i h
    have hsome : node.walk ptr.chr ≠ none := by
      intro hnone
      rw [walk, ← scanReplace_eq_none_iff] at hnone
      simp [h] at hnone
    rw [if_neg hsome]
    exact scanWalk_scanReplace hlive h
  · rename_i h
    have hnone : node.walk ptr.chr = none := scanReplace_eq_none_iff.mp h
    rw [if_pos hnone]

theorem replace_eq_true_iff (node : ScanNode n) (ptr : TriePtr) :
    (node.replace ptr).1 = true ↔ node.walk ptr.chr ≠ none := by
  unfold replace
  split
  · rename_i h
    simp only [true_iff]
    intro hnone
    rw [walk, ← scanReplace_eq_none_iff] at hnone
    simp [h] at hnone
  · rename_i h
    simp [walk, scanReplace_eq_none_iff.mp h]

end ScanNode

/-! ### Arrays indexed by a byte -/

/-- Reading a fixed array after writing one of its elements. -/
theorem getD_set_of_lt {α : Type} {l : List α} {i : Nat} (j : Nat) (a d : α) (hi : i < l.length) :
    (l.set i a).getD j d = if i = j then a else l.getD j d := by
  simp only [List.getD_eq_getElem?_getD, List.getElem?_set, hi, if_true]
  split <;> rfl

theorem UInt8.toNat_lt_256 (c : UInt8) : c.toNat < 256 := c.toNat_lt

/-! ### `TrieNode256` -/

/-- `TrieNode256`: one slot per path byte. -/
structure TrieNode256 where
  path : List UInt8
  ptrs : List TriePtr
  length_ptrs : ptrs.length = 256
  deriving DecidableEq, Repr

namespace TrieNode256

def new (path : List UInt8) : TrieNode256 :=
  ⟨path, List.replicate 256 TriePtr.default, List.length_replicate⟩

/-- The slot of a byte: `ptrs[chr as usize]`. -/
def slot (node : TrieNode256) (c : UInt8) : TriePtr := node.ptrs.getD c.toNat TriePtr.default

/-- Write the slot of a byte. -/
def setSlot (node : TrieNode256) (c : UInt8) (ptr : TriePtr) : TrieNode256 :=
  ⟨node.path, node.ptrs.set c.toNat ptr, by simp [node.length_ptrs]⟩

def walk (node : TrieNode256) (chr : UInt8) : Option TriePtr :=
  if (node.slot chr).IsLive then some (node.slot chr) else none

def replace (node : TrieNode256) (ptr : TriePtr) : Bool × TrieNode256 :=
  if (node.slot ptr.chr).IsLive ∧ (node.slot ptr.chr).chr = ptr.chr then
    (true, node.setSlot ptr.chr ptr)
  else (false, node)

def insert (node : TrieNode256) (ptr : TriePtr) : Bool × TrieNode256 :=
  match node.replace ptr with
  | (true, node) => (true, node)
  | (false, node) => (true, node.setSlot ptr.chr ptr)

theorem slot_setSlot (node : TrieNode256) (c d : UInt8) (ptr : TriePtr) :
    (node.setSlot c ptr).slot d = if d = c then ptr else node.slot d := by
  simp only [slot, setSlot]
  rw [getD_set_of_lt _ _ _ (by rw [node.length_ptrs]; exact UInt8.toNat_lt_256 c)]
  by_cases h : d = c
  · simp [h]
  · have h' : ¬ c.toNat = d.toNat := fun h' => h (UInt8.toNat_inj.mp h').symm
    simp [h, h']

theorem walk_setSlot (node : TrieNode256) {ptr : TriePtr} (hlive : ptr.IsLive) :
    (node.setSlot ptr.chr ptr).walk = Function.update node.walk ptr.chr (some ptr) := by
  funext d
  by_cases hd : d = ptr.chr
  · subst hd
    simp [walk, slot_setSlot, hlive]
  · simp [walk, slot_setSlot, hd]

/-- A slot of a well-formed node holds a live pointer only at its own byte. -/
def WellFormed (node : TrieNode256) : Prop := ∀ c, (node.slot c).IsLive → (node.slot c).chr = c

theorem WellFormed.setSlot {node : TrieNode256} (hwf : node.WellFormed) (ptr : TriePtr) :
    (node.setSlot ptr.chr ptr).WellFormed := by
  intro c hc
  rw [slot_setSlot] at hc ⊢
  by_cases h : c = ptr.chr
  · simp [h]
  · simp only [h, if_false] at hc ⊢
    exact hwf c hc

/-- `insert` always writes, and makes the pointer the child at its byte. -/
theorem walk_insert (node : TrieNode256) {ptr : TriePtr} (hlive : ptr.IsLive) :
    (node.insert ptr).1 = true ∧
      (node.insert ptr).2.walk = Function.update node.walk ptr.chr (some ptr) := by
  unfold insert replace
  split_ifs <;> exact ⟨rfl, walk_setSlot node hlive⟩

/-- `replace` on a well-formed node writes exactly when there is a child at the
pointer's byte. -/
theorem walk_replace {node : TrieNode256} (hwf : node.WellFormed) {ptr : TriePtr}
    (hlive : ptr.IsLive) :
    ((node.replace ptr).1 = true ↔ node.walk ptr.chr ≠ none) ∧
      (node.replace ptr).2.walk =
        if node.walk ptr.chr = none then node.walk
        else Function.update node.walk ptr.chr (some ptr) := by
  by_cases hslot : (node.slot ptr.chr).IsLive
  · have hchr := hwf ptr.chr hslot
    have hsome : node.walk ptr.chr ≠ none := by simp [walk, hslot]
    simp only [replace, hslot, hchr, and_self, if_true, hsome, if_false]
    exact ⟨by simpa using hsome, walk_setSlot node hlive⟩
  · have hnone : node.walk ptr.chr = none := by simp [walk, hslot]
    simp [replace, hslot, hnone]

theorem WellFormed.insert {node : TrieNode256} (hwf : node.WellFormed) (ptr : TriePtr) :
    (node.insert ptr).2.WellFormed := by
  unfold TrieNode256.insert TrieNode256.replace
  split_ifs <;> exact hwf.setSlot ptr

theorem WellFormed.replace {node : TrieNode256} (hwf : node.WellFormed) (ptr : TriePtr) :
    (node.replace ptr).2.WellFormed := by
  unfold TrieNode256.replace
  split_ifs
  · exact hwf.setSlot ptr
  · exact hwf

end TrieNode256

/-! ### `TrieNode48` -/

/-- A slot number below 48 as the code stores it, `i as i8`, and reads it back. -/
theorem toNatClampNeg_ofNat_slot {i : Nat} (h : i < 48) : (Int8.ofNat i).toNatClampNeg = i :=
  Int8.toNatClampNeg_ofNat_of_lt (by omega)

theorem ofNat_slot_nonneg {i : Nat} (h : i < 48) : 0 ≤ Int8.ofNat i := by
  rw [Int8.le_iff_toInt_le, Int8.toInt_ofNat_of_lt (by omega)]
  simp

theorem ofNat_slot_lt {i : Nat} (h : i < 48) : Int8.ofNat i < 48 := by
  rw [Int8.lt_iff_toInt_lt, Int8.toInt_ofNat_of_lt (by omega)]
  have : (48 : Int8).toInt = 48 := rfl
  rw [this]
  omega

/-- A non-negative index below 48 names a slot. -/
theorem toNatClampNeg_lt_of_lt {idx : Int8} (h : idx < 48) : idx.toNatClampNeg < 48 := by
  rw [Int8.lt_iff_toInt_lt] at h
  have h48 : (48 : Int8).toInt = 48 := rfl
  rw [← Int8.toNat_toInt]
  omega

/-- `TrieNode48`: 48 slots and, for each path byte, the slot of its child or a
negative index. Every index is below 48, as `from_bytes` checks. -/
structure TrieNode48 where
  path : List UInt8
  indexes : List Int8
  ptrs : List TriePtr
  length_indexes : indexes.length = 256
  length_ptrs : ptrs.length = 48
  indexes_lt : ∀ i ∈ indexes, i < 48
  deriving DecidableEq, Repr

namespace TrieNode48

def new (path : List UInt8) : TrieNode48 where
  path := path
  indexes := List.replicate 256 (-1)
  ptrs := List.replicate 48 TriePtr.default
  length_indexes := List.length_replicate
  length_ptrs := List.length_replicate
  indexes_lt := fun i hi => by
    rw [List.eq_of_mem_replicate hi]
    decide

/-- `indexes[chr as usize]`. -/
def index (node : TrieNode48) (c : UInt8) : Int8 := node.indexes.getD c.toNat (-1)

/-- `ptrs[i]`. -/
def slot (node : TrieNode48) (i : Nat) : TriePtr := node.ptrs.getD i TriePtr.default

def walk (node : TrieNode48) (chr : UInt8) : Option TriePtr :=
  let idx := node.index chr
  if 0 ≤ idx ∧ idx < 48 ∧ (node.slot idx.toNatClampNeg).IsLive then
    some (node.slot idx.toNatClampNeg)
  else none

/-- `ptrs[i] = ptr`. -/
def setSlot (node : TrieNode48) (i : Nat) (ptr : TriePtr) : TrieNode48 :=
  { node with ptrs := node.ptrs.set i ptr, length_ptrs := by simp [node.length_ptrs] }

theorem indexes_lt_set {node : TrieNode48} (c : UInt8) {i : Nat} (hi : i < 48) :
    ∀ x ∈ node.indexes.set c.toNat (Int8.ofNat i), x < 48 := by
  intro x hx
  rcases List.mem_or_eq_of_mem_set hx with hx | rfl
  · exact node.indexes_lt x hx
  · exact ofNat_slot_lt hi

/-- `indexes[c as usize] = i as i8`. -/
def setIndex (node : TrieNode48) (c : UInt8) (i : Nat) (hi : i < 48) : TrieNode48 :=
  { node with
    indexes := node.indexes.set c.toNat (Int8.ofNat i)
    length_indexes := by simp [node.length_indexes]
    indexes_lt := indexes_lt_set c hi }

def replace (node : TrieNode48) (ptr : TriePtr) : Bool × TrieNode48 :=
  let i := node.index ptr.chr
  if 0 ≤ i then (true, node.setSlot i.toNatClampNeg ptr) else (false, node)

theorem findIdx_lt_length {p : TriePtr → Bool} {l : List TriePtr} {i : Nat}
    (h : l.findIdx? p = some i) : i < l.length :=
  (List.findIdx?_eq_some_iff_getElem.mp h).1

/-- `insert`: `replace`, or else record the first free slot for the byte and
fill it. -/
def insert (node : TrieNode48) (ptr : TriePtr) : Bool × TrieNode48 :=
  match node.replace ptr with
  | (true, node') => (true, node')
  | (false, _) =>
    match h : node.ptrs.findIdx? fun p => decide ¬ p.IsLive with
    | some i =>
      (true, (node.setIndex ptr.chr i (node.length_ptrs ▸ findIdx_lt_length h)).setSlot i ptr)
    | none => (false, node)

theorem index_lt (node : TrieNode48) (c : UInt8) : node.index c < 48 := by
  unfold index
  rw [List.getD_eq_getElem?_getD]
  cases h : node.indexes[c.toNat]? with
  | none => decide
  | some x => exact node.indexes_lt x (List.mem_of_getElem? h)

@[simp] theorem index_setSlot (node : TrieNode48) (i : Nat) (ptr : TriePtr) (c : UInt8) :
    (node.setSlot i ptr).index c = node.index c := rfl

@[simp] theorem slot_setIndex (node : TrieNode48) (c : UInt8) (i : Nat) (hi : i < 48) (j : Nat) :
    (node.setIndex c i hi).slot j = node.slot j := rfl

theorem slot_setSlot (node : TrieNode48) {i : Nat} (hi : i < 48) (ptr : TriePtr) (j : Nat) :
    (node.setSlot i ptr).slot j = if i = j then ptr else node.slot j :=
  getD_set_of_lt j ptr _ (by rw [node.length_ptrs]; exact hi)

theorem index_setIndex (node : TrieNode48) (c : UInt8) {i : Nat} (hi : i < 48) (d : UInt8) :
    (node.setIndex c i hi).index d = if d = c then Int8.ofNat i else node.index d := by
  simp only [index, setIndex]
  rw [getD_set_of_lt _ _ _ (by rw [node.length_indexes]; exact UInt8.toNat_lt_256 c)]
  by_cases h : d = c
  · simp [h]
  · have h' : ¬ c.toNat = d.toNat := fun h' => h (UInt8.toNat_inj.mp h').symm
    simp [h, h']

theorem slot_eq_getElem {node : TrieNode48} {i : Nat} (hi : i < node.ptrs.length) :
    node.slot i = node.ptrs[i] := by
  simp [slot, List.getD_eq_getElem?_getD, hi]

theorem slot_mem (node : TrieNode48) {i : Nat} (hi : i < 48) : node.slot i ∈ node.ptrs := by
  rw [slot_eq_getElem (node.length_ptrs ▸ hi)]
  exact List.getElem_mem _

/-- The slot the index of a byte names. -/
def slotOf (node : TrieNode48) (c : UInt8) : TriePtr := node.slot (node.index c).toNatClampNeg

/-- The index array and the slots agree: a non-negative index names a live slot
at that byte, and each live slot is the index of its byte. -/
structure Consistent (node : TrieNode48) : Prop where
  index_slot : ∀ c, 0 ≤ node.index c → (node.slotOf c).IsLive ∧ (node.slotOf c).chr = c
  slot_index : ∀ i < 48, (node.slot i).IsLive → node.index (node.slot i).chr = Int8.ofNat i

theorem new_consistent (path : List UInt8) : (new path).Consistent where
  index_slot c h := by
    have : (new path).index c = -1 := by
      simp only [index, new, List.getD_eq_getElem?_getD, List.getElem?_replicate,
        UInt8.toNat_lt_256 c, if_true, Option.getD_some]
    rw [this] at h
    exact absurd h (by decide)
  slot_index i hi h := by
    have : (new path).slot i = TriePtr.default := by
      simp only [slot, new, List.getD_eq_getElem?_getD, List.getElem?_replicate, hi, if_true,
        Option.getD_some]
    rw [this] at h
    exact absurd h TriePtr.not_isLive_default

/-- On a consistent node, `walk` follows the index of the byte. -/
theorem walk_eq {node : TrieNode48} (hc : node.Consistent) (c : UInt8) :
    node.walk c = if 0 ≤ node.index c then some (node.slotOf c) else none := by
  by_cases h : 0 ≤ node.index c
  · have hlive := (hc.index_slot c h).1
    simp [walk, slotOf, h, node.index_lt c] at hlive ⊢
    exact hlive
  · simp [walk, h]

/-- Two bytes with non-negative indexes into one slot are the same byte. -/
theorem eq_of_slotOf_eq {node : TrieNode48} (hc : node.Consistent) {c d : UInt8}
    (hc0 : 0 ≤ node.index c) (hd0 : 0 ≤ node.index d)
    (heq : (node.index c).toNatClampNeg = (node.index d).toNatClampNeg) : c = d := by
  have hcc := (hc.index_slot c hc0).2
  have hdd := (hc.index_slot d hd0).2
  simp only [slotOf] at hcc hdd
  rw [heq] at hcc
  exact hcc.symm.trans hdd

end TrieNode48

namespace TrieNode48

variable {node : TrieNode48} {ptr : TriePtr}

theorem slotOf_lt (node : TrieNode48) (c : UInt8) : (node.index c).toNatClampNeg < 48 :=
  toNatClampNeg_lt_of_lt (node.index_lt c)

/-! #### Writing the slot of a byte that has a child -/

theorem slotOf_setSlot_self :
    (node.setSlot (node.index ptr.chr).toNatClampNeg ptr).slotOf ptr.chr = ptr := by
  simp only [slotOf, index_setSlot, slot_setSlot _ (node.slotOf_lt _), if_true]

section Overwrite

variable (hc : node.Consistent) (hlive : ptr.IsLive) (h0 : 0 ≤ node.index ptr.chr)
include hc h0

/-- The slots of other bytes are not the written one. -/
theorem slotOf_setSlot_of_ne {d : UInt8} (hd : d ≠ ptr.chr) (hd0 : 0 ≤ node.index d) :
    (node.setSlot (node.index ptr.chr).toNatClampNeg ptr).slotOf d = node.slotOf d := by
  have hne : (node.index ptr.chr).toNatClampNeg ≠ (node.index d).toNatClampNeg :=
    fun heq => hd (eq_of_slotOf_eq hc h0 hd0 heq).symm
  simp only [slotOf, index_setSlot, slot_setSlot _ (node.slotOf_lt _), hne, if_false]

include hlive in
theorem Consistent.setSlot_index :
    (node.setSlot (node.index ptr.chr).toNatClampNeg ptr).Consistent := by
  have hj := node.slotOf_lt ptr.chr
  constructor
  · intro d hd0
    rw [index_setSlot] at hd0
    by_cases hd : d = ptr.chr
    -- the written byte: its slot holds the new pointer
    · subst hd
      rw [slotOf_setSlot_self]
      exact ⟨hlive, rfl⟩
    · rw [slotOf_setSlot_of_ne hc h0 hd hd0]
      exact hc.index_slot d hd0
  · intro i hi hlive_i
    rw [slot_setSlot _ hj] at hlive_i ⊢
    by_cases hij : (node.index ptr.chr).toNatClampNeg = i
    -- the written slot is the index of the pointer's byte
    · rw [if_pos hij, index_setSlot, ← hij, Int8.ofNat_toNatClampNeg _ h0]
    · rw [if_neg hij] at hlive_i ⊢
      rw [index_setSlot]
      exact hc.slot_index i hi hlive_i

include hlive in
theorem walk_setSlot_index :
    (node.setSlot (node.index ptr.chr).toNatClampNeg ptr).walk =
      Function.update node.walk ptr.chr (some ptr) := by
  funext d
  rw [walk_eq (hc.setSlot_index hlive h0), index_setSlot]
  by_cases hd : d = ptr.chr
  · subst hd
    simp [h0, slotOf_setSlot_self]
  · rw [Function.update_of_ne hd, walk_eq hc]
    by_cases hd0 : 0 ≤ node.index d
    · simp [hd0, slotOf_setSlot_of_ne hc h0 hd hd0]
    · simp [hd0]

end Overwrite

/-! #### Filling a free slot for a byte without a child -/

theorem slotOf_fill_self {i : Nat} (hi : i < 48) :
    ((node.setIndex ptr.chr i hi).setSlot i ptr).slotOf ptr.chr = ptr := by
  simp only [slotOf, index_setSlot, index_setIndex, if_true, toNatClampNeg_ofNat_slot hi,
    slot_setSlot _ hi]

section Fill

variable (hc : node.Consistent) (h0 : ¬ 0 ≤ node.index ptr.chr) {i : Nat} (hi : i < 48)
  (hfree : ¬ (node.slot i).IsLive)
include hc hfree

theorem slotOf_fill_of_ne {d : UInt8} (hd : d ≠ ptr.chr) (hd0 : 0 ≤ node.index d) :
    ((node.setIndex ptr.chr i hi).setSlot i ptr).slotOf d = node.slotOf d := by
  have hne : i ≠ (node.index d).toNatClampNeg := by
    intro heq
    have := (hc.index_slot d hd0).1
    rw [slotOf, ← heq] at this
    exact hfree this
  simp only [slotOf, index_setSlot, index_setIndex, hd, if_false, slot_setSlot _ hi,
    slot_setIndex, hne]

include h0 in
theorem Consistent.fill (hlive : ptr.IsLive) :
    ((node.setIndex ptr.chr i hi).setSlot i ptr).Consistent := by
  constructor
  · intro d hd0
    by_cases hd : d = ptr.chr
    · subst hd
      rw [slotOf_fill_self hi]
      exact ⟨hlive, rfl⟩
    · rw [index_setSlot, index_setIndex, if_neg hd] at hd0
      rw [slotOf_fill_of_ne hc hi hfree hd hd0]
      exact hc.index_slot d hd0
  · intro k hk hlive_k
    rw [slot_setSlot _ hi, slot_setIndex] at hlive_k ⊢
    by_cases hik : i = k
    -- the filled slot is the index of the pointer's byte
    · simp [hik, index_setIndex]
    -- another live slot: its byte is not the pointer's, which had no child
    · rw [if_neg hik] at hlive_k ⊢
      have hbyte : (node.slot k).chr ≠ ptr.chr := by
        intro heq
        have := hc.slot_index k hk hlive_k
        rw [heq] at this
        exact h0 (this ▸ ofNat_slot_nonneg hk)
      rw [index_setSlot, index_setIndex, if_neg hbyte]
      exact hc.slot_index k hk hlive_k

include h0 in
theorem walk_fill (hlive : ptr.IsLive) :
    ((node.setIndex ptr.chr i hi).setSlot i ptr).walk =
      Function.update node.walk ptr.chr (some ptr) := by
  funext d
  rw [walk_eq (hc.fill h0 hi hfree hlive)]
  by_cases hd : d = ptr.chr
  · subst hd
    simp [index_setIndex, ofNat_slot_nonneg hi, slotOf_fill_self hi]
  · rw [Function.update_of_ne hd, walk_eq hc, index_setSlot, index_setIndex, if_neg hd]
    by_cases hd0 : 0 ≤ node.index d
    · simp [hd0, slotOf_fill_of_ne hc hi hfree hd hd0]
    · simp [hd0]

end Fill

/-! #### `insert` and `replace` -/

theorem replace_of_nonneg (h0 : 0 ≤ node.index ptr.chr) :
    node.replace ptr = (true, node.setSlot (node.index ptr.chr).toNatClampNeg ptr) := by
  simp [replace, h0]

theorem replace_of_neg (h0 : ¬ 0 ≤ node.index ptr.chr) : node.replace ptr = (false, node) := by
  simp [replace, h0]

/-- The fill branch of `insert`, at the first free slot. -/
theorem insert_of_fill (h0 : ¬ 0 ≤ node.index ptr.chr) {i : Nat}
    (h : (node.ptrs.findIdx? fun p => decide ¬ p.IsLive) = some i) :
    node.insert ptr =
      (true, (node.setIndex ptr.chr i (node.length_ptrs ▸ findIdx_lt_length h)).setSlot i ptr) := by
  rw [insert, replace_of_neg h0]
  dsimp only
  split
  · rename_i j h'
    rw [h] at h'
    cases h'
    rfl
  · rename_i h'
    rw [h] at h'
    cases h'

theorem insert_of_full (h0 : ¬ 0 ≤ node.index ptr.chr)
    (h : (node.ptrs.findIdx? fun p => decide ¬ p.IsLive) = none) :
    node.insert ptr = (false, node) := by
  rw [insert, replace_of_neg h0]
  dsimp only
  split
  · rename_i j h'
    rw [h] at h'
    cases h'
  · rfl

/-- `insert` of a live pointer into a consistent node that writes makes the
pointer the child at its byte, and keeps the node consistent. -/
theorem walk_insert (hc : node.Consistent) (hlive : ptr.IsLive) (hins : (node.insert ptr).1 = true) :
    (node.insert ptr).2.walk = Function.update node.walk ptr.chr (some ptr) ∧
      (node.insert ptr).2.Consistent := by
  by_cases h0 : 0 ≤ node.index ptr.chr
  · rw [insert, replace_of_nonneg h0]
    exact ⟨walk_setSlot_index hc hlive h0, hc.setSlot_index hlive h0⟩
  · cases h : node.ptrs.findIdx? fun p => decide ¬ p.IsLive with
    | none =>
      rw [insert_of_full h0 h] at hins
      simp at hins
    | some i =>
      rw [insert_of_fill h0 h]
      obtain ⟨hi, hfree, -⟩ := List.findIdx?_eq_some_iff_getElem.mp h
      have hi48 : i < 48 := node.length_ptrs ▸ hi
      have hfree' : ¬ (node.slot i).IsLive := by
        simpa [slot, List.getD_eq_getElem?_getD, hi] using hfree
      exact ⟨walk_fill hc h0 hi48 hfree' hlive, hc.fill h0 hi48 hfree' hlive⟩

/-- `insert` returns `false` only on a node whose 48 slots are all live, none at
the byte, and then leaves it as it was. -/
theorem insert_eq_false (hc : node.Consistent) (hins : (node.insert ptr).1 = false) :
    (∀ p ∈ node.ptrs, p.IsLive) ∧ node.walk ptr.chr = none ∧ (node.insert ptr).2 = node := by
  have h0 : ¬ 0 ≤ node.index ptr.chr := by
    intro h0
    rw [insert, replace_of_nonneg h0] at hins
    simp at hins
  cases h : node.ptrs.findIdx? fun p => decide ¬ p.IsLive with
  | some i =>
    rw [insert_of_fill h0 h] at hins
    simp at hins
  | none =>
    have hall : ∀ p ∈ node.ptrs, p.IsLive := by
      intro p hp
      simpa using List.findIdx?_eq_none_iff.mp h p hp
    exact ⟨hall, by simp [walk_eq hc, h0], by rw [insert_of_full h0 h]⟩

/-- `replace` on a consistent node writes exactly when the byte has a child, and
then makes the pointer that child. -/
theorem walk_replace (hc : node.Consistent) (hlive : ptr.IsLive) :
    ((node.replace ptr).1 = true ↔ node.walk ptr.chr ≠ none) ∧
      (node.replace ptr).2.walk =
        (if node.walk ptr.chr = none then node.walk
        else Function.update node.walk ptr.chr (some ptr)) ∧
      (node.replace ptr).2.Consistent := by
  by_cases h0 : 0 ≤ node.index ptr.chr
  · have hsome : node.walk ptr.chr ≠ none := by simp [walk_eq hc, h0]
    rw [replace_of_nonneg h0, if_neg hsome]
    exact ⟨by simpa using hsome, walk_setSlot_index hc hlive h0, hc.setSlot_index hlive h0⟩
  · have hnone : node.walk ptr.chr = none := by simp [walk_eq hc, h0]
    rw [replace_of_neg h0, if_pos hnone]
    exact ⟨by simp [hnone], rfl, hc⟩

end TrieNode48

/-! ### Promotions -/

/-- `TrieNode16::from_node4`: the four slots, then twelve empty ones. -/
def TrieNode16.fromNode4 (node4 : TrieNode4) : TrieNode16 :=
  ⟨node4.path, node4.ptrs ++ List.replicate 12 TriePtr.default, by simp [node4.length_ptrs]⟩

theorem scanWalk_append_empty (ps : List TriePtr) (k : Nat) (c : UInt8) :
    scanWalk (ps ++ List.replicate k TriePtr.default) c = scanWalk ps c := by
  have hnone : scanWalk (List.replicate k TriePtr.default) c = none := by
    rw [scanWalk, List.find?_eq_none]
    intro q hq
    rw [List.eq_of_mem_replicate hq]
    simp [TriePtr.not_isLive_default]
  rw [scanWalk, List.find?_append, ← scanWalk, ← scanWalk, hnone, Option.or_none]

/-- Promoting a `TrieNode4` to a `TrieNode16` keeps every child. -/
theorem TrieNode16.walk_fromNode4 (node4 : TrieNode4) :
    (TrieNode16.fromNode4 node4).walk = node4.walk := by
  funext c
  exact scanWalk_append_empty node4.ptrs 12 c

/-- The loop of `TrieNode256::from_node4` and `TrieNode256::from_node48`: copy
each slot, in slot order, to the slot of its byte. Empty slots are copied too. -/
def spreadByChr (init : List TriePtr) (ptrs : List TriePtr) : List TriePtr :=
  ptrs.foldl (fun acc p => acc.set p.chr.toNat p) init

theorem length_spreadByChr (init ptrs : List TriePtr) :
    (spreadByChr init ptrs).length = init.length := by
  induction ptrs generalizing init with
  | nil => rfl
  | cons p ps ih =>
    show (spreadByChr (init.set p.chr.toNat p) ps).length = init.length
    rw [ih, List.length_set]

/-- After the loop, the slot of a byte holds the last slot copied with that
byte, or what it held before. -/
theorem getD_spreadByChr (c : UInt8) : ∀ (init ptrs : List TriePtr), init.length = 256 →
    (spreadByChr init ptrs).getD c.toNat TriePtr.default =
      (ptrs.reverse.find? fun p => decide (p.chr = c)).getD (init.getD c.toNat TriePtr.default)
  | _, [], _ => rfl
  | init, p :: ps, hinit => by
    have hlen : (init.set p.chr.toNat p).length = 256 := by simp [hinit]
    have ih := getD_spreadByChr c (init.set p.chr.toNat p) ps hlen
    simp only [spreadByChr, List.foldl_cons] at ih ⊢
    rw [ih, List.reverse_cons, List.find?_append,
      getD_set_of_lt _ _ _ (by rw [hinit]; exact UInt8.toNat_lt_256 _)]
    cases ps.reverse.find? fun p => decide (p.chr = c) with
    | some q => rfl
    | none =>
      by_cases hpc : p.chr = c
      · simp [hpc]
      · have : ¬ p.chr.toNat = c.toNat := fun h => hpc (UInt8.toNat_inj.mp h)
        simp [hpc, this]

/-- With distinct bytes, the last slot at a byte is the first. -/
theorem find_reverse_of_nodup (c : UInt8) : ∀ {ps : List TriePtr}, (ps.map (·.chr)).Nodup →
    (ps.reverse.find? fun p => decide (p.chr = c)) = ps.find? fun p => decide (p.chr = c)
  | [], _ => rfl
  | p :: ps, hnodup => by
    rw [List.map_cons, List.nodup_cons] at hnodup
    rw [List.reverse_cons, List.find?_append, find_reverse_of_nodup c hnodup.2, List.find?_cons]
    by_cases hpc : p.chr = c
    · have hnone : (ps.find? fun p => decide (p.chr = c)) = none := by
        rw [List.find?_eq_none]
        intro q hq hqc
        exact hnodup.1 (hpc ▸ decide_eq_true_iff.mp hqc ▸ List.mem_map_of_mem hq)
      simp [hpc, hnone]
    · simp [hpc]

/-- On slots that are all live, `walk` is the first slot at the byte. -/
theorem scanWalk_of_live (c : UInt8) : ∀ {ps : List TriePtr}, (∀ p ∈ ps, p.IsLive) →
    scanWalk ps c = ps.find? fun p => decide (p.chr = c)
  | [], _ => rfl
  | p :: ps, hall => by
    rw [scanWalk_cons, List.find?_cons, scanWalk_of_live c (fun q hq => hall q (List.mem_cons_of_mem p hq))]
    by_cases hpc : p.chr = c <;> simp [hpc, hall p List.mem_cons_self]

namespace TrieNode256

/-- `TrieNode256::from_node4`. -/
def fromNode4 (node4 : TrieNode4) : TrieNode256 :=
  ⟨node4.path, spreadByChr (List.replicate 256 TriePtr.default) node4.ptrs,
    (length_spreadByChr _ _).trans List.length_replicate⟩

/-- `TrieNode256::from_node48`. -/
def fromNode48 (node48 : TrieNode48) : TrieNode256 :=
  ⟨node48.path, spreadByChr (List.replicate 256 TriePtr.default) node48.ptrs,
    (length_spreadByChr _ _).trans List.length_replicate⟩

/-- The slot of a byte after spreading: the last slot with that byte, if any. -/
theorem slot_spread (path : List UInt8) (ptrs : List TriePtr) (c : UInt8) :
    (⟨path, spreadByChr (List.replicate 256 TriePtr.default) ptrs,
      (length_spreadByChr _ _).trans List.length_replicate⟩ :
      TrieNode256).slot c =
      (ptrs.reverse.find? fun p => decide (p.chr = c)).getD TriePtr.default := by
  simp only [slot]
  rw [getD_spreadByChr c _ ptrs List.length_replicate, List.getD_eq_getElem?_getD,
    List.getElem?_replicate, if_pos (UInt8.toNat_lt_256 c), Option.getD_some]

/-- Spreading slots that are all live, at distinct bytes, keeps every child. -/
theorem walk_spread_of_live (path : List UInt8) {ptrs : List TriePtr}
    (hall : ∀ p ∈ ptrs, p.IsLive) (hnodup : (ptrs.map (·.chr)).Nodup) :
    (⟨path, spreadByChr (List.replicate 256 TriePtr.default) ptrs,
      (length_spreadByChr _ _).trans List.length_replicate⟩ :
      TrieNode256).walk = scanWalk ptrs := by
  funext c
  rw [walk, slot_spread, find_reverse_of_nodup c hnodup, scanWalk_of_live c hall]
  cases h : ptrs.find? fun p => decide (p.chr = c) with
  | none => simp [TriePtr.not_isLive_default]
  | some p => simp [hall p (List.mem_of_find?_eq_some h)]

/-- On a consistent `TrieNode48`, live slots are at distinct bytes. -/
theorem nodup_chr_of_consistent {node : TrieNode48} (hc : node.Consistent)
    (hall : ∀ p ∈ node.ptrs, p.IsLive) : (node.ptrs.map (·.chr)).Nodup := by
  rw [List.nodup_iff_injective_getElem]
  intro ⟨i, hi⟩ ⟨j, hj⟩ heq
  have hi' : i < node.ptrs.length := by simpa using hi
  have hj' : j < node.ptrs.length := by simpa using hj
  simp only [List.getElem_map] at heq
  have hi48 : i < 48 := node.length_ptrs ▸ hi'
  have hj48 : j < 48 := node.length_ptrs ▸ hj'
  have hii := hc.slot_index i hi48 (TrieNode48.slot_eq_getElem hi' ▸ hall _ (List.getElem_mem hi'))
  have hjj := hc.slot_index j hj48 (TrieNode48.slot_eq_getElem hj' ▸ hall _ (List.getElem_mem hj'))
  rw [TrieNode48.slot_eq_getElem hi', heq] at hii
  rw [TrieNode48.slot_eq_getElem hj', hii] at hjj
  have := congrArg Int8.toNatClampNeg hjj
  rw [toNatClampNeg_ofNat_slot hi48, toNatClampNeg_ofNat_slot hj48] at this
  exact Fin.ext this

/-- Promoting a full consistent `TrieNode48`, as `insert_leaf` does, keeps every child. -/
theorem walk_fromNode48_of_full {node48 : TrieNode48} (hc : node48.Consistent)
    (hall : ∀ p ∈ node48.ptrs, p.IsLive) : (fromNode48 node48).walk = node48.walk := by
  have hnodup := nodup_chr_of_consistent hc hall
  rw [fromNode48, walk_spread_of_live node48.path hall hnodup]
  funext c
  rw [TrieNode48.walk_eq hc, scanWalk_of_live c hall]
  by_cases h0 : 0 ≤ node48.index c
  -- the byte's slot is a live slot at the byte, and the only one
  · obtain ⟨hlive, hchr⟩ := hc.index_slot c h0
    have hmem := node48.slot_mem (node48.slotOf_lt c)
    have hchr' : (node48.slot (node48.index c).toNatClampNeg).chr = c := hchr
    obtain ⟨q, hq⟩ := Option.isSome_iff_exists.mp
      ((List.find?_isSome (p := fun p => decide (p.chr = c))).mpr ⟨_, hmem, by simpa using hchr'⟩)
    have hqc : q.chr = c := by
      have := List.find?_some hq
      simpa using this
    have hqeq : q = node48.slotOf c :=
      List.inj_on_of_nodup_map hnodup (List.mem_of_find?_eq_some hq) hmem (hqc.trans hchr.symm)
    rw [if_pos h0, hq, hqeq]
  -- no slot is at the byte: a live one would be its index
  · rw [if_neg h0, List.find?_eq_none]
    intro q hq hqc
    obtain ⟨i, hi, rfl⟩ := List.getElem_of_mem hq
    have hi48 : i < 48 := node48.length_ptrs ▸ hi
    have := hc.slot_index i hi48 (TrieNode48.slot_eq_getElem hi ▸ hall _ hq)
    rw [TrieNode48.slot_eq_getElem hi, decide_eq_true_iff.mp hqc] at this
    exact h0 (this ▸ ofNat_slot_nonneg hi48)

end TrieNode256

/-! ### Distinct bytes in scanned nodes -/

/-- The bytes of the live slots, in slot order. -/
def liveChrs (ps : List TriePtr) : List UInt8 := (ps.filter fun p => decide p.IsLive).map (·.chr)

theorem liveChrs_cons (p : TriePtr) (ps : List TriePtr) :
    liveChrs (p :: ps) = if p.IsLive then p.chr :: liveChrs ps else liveChrs ps := by
  by_cases hp : p.IsLive <;> simp [liveChrs, hp]

/-- A byte has a live slot exactly when `walk` finds one. -/
theorem mem_liveChrs_iff (c : UInt8) : ∀ {ps : List TriePtr}, c ∈ liveChrs ps ↔ scanWalk ps c ≠ none
  | [] => by simp [liveChrs]
  | p :: ps => by
    rw [liveChrs_cons, scanWalk_cons]
    by_cases hp : p.IsLive
    · by_cases hc : p.chr = c
      · simp [hp, hc]
      · have hc' : c ≠ p.chr := fun h => hc h.symm
        simp [hp, hc, hc', mem_liveChrs_iff c]
    · simp [hp, mem_liveChrs_iff c]

/-- `replace` keeps the bytes of the live slots. -/
theorem liveChrs_scanReplace {ptr : TriePtr} (hlive : ptr.IsLive) : ∀ {ps ps' : List TriePtr},
    scanReplace ptr ps = some ps' → liveChrs ps' = liveChrs ps
  | [], _, h => by simp [scanReplace] at h
  | p :: ps, ps', h => by
    unfold scanReplace at h
    split_ifs at h with hp
    · cases h
      rw [liveChrs_cons, liveChrs_cons, if_pos hlive, if_pos hp.1, hp.2]
    · obtain ⟨rest, hrest, rfl⟩ := Option.map_eq_some_iff.mp h
      rw [liveChrs_cons, liveChrs_cons, liveChrs_scanReplace hlive hrest]

/-- Filling a free slot adds the pointer's byte to the bytes of the live slots. -/
theorem liveChrs_scanFill {ptr : TriePtr} (hlive : ptr.IsLive) : ∀ {ps ps' : List TriePtr},
    scanFill ptr ps = some ps' → (liveChrs ps').Perm (ptr.chr :: liveChrs ps)
  | [], _, h => by simp [scanFill] at h
  | p :: ps, ps', h => by
    by_cases hp : p.IsLive
    · rw [scanFill, if_neg (not_not.mpr hp)] at h
      obtain ⟨rest, hrest, rfl⟩ := Option.map_eq_some_iff.mp h
      rw [liveChrs_cons, liveChrs_cons, if_pos hp, if_pos hp]
      exact ((liveChrs_scanFill hlive hrest).cons p.chr).trans (List.Perm.swap _ _ _)
    · rw [scanFill, if_pos hp] at h
      cases h
      rw [liveChrs_cons, liveChrs_cons, if_pos hlive, if_neg hp]

namespace ScanNode

variable {n : Nat}

/-- The live slots of a node are at distinct bytes. -/
def Distinct (node : ScanNode n) : Prop := (liveChrs node.ptrs).Nodup

theorem Distinct.insert {node : ScanNode n} (hd : node.Distinct) {ptr : TriePtr} (hlive : ptr.IsLive) :
    (node.insert ptr).2.Distinct := by
  unfold ScanNode.insert
  split
  · rename_i ptrs h
    unfold scanInsert at h
    split at h
    · cases h
      rename_i hrep
      show (liveChrs _).Nodup
      rw [liveChrs_scanReplace hlive hrep]
      exact hd
    · rename_i hrep
      have hnot : ptr.chr ∉ liveChrs node.ptrs := by
        rw [mem_liveChrs_iff, not_not]
        exact scanReplace_eq_none_iff.mp hrep
      exact (List.Perm.nodup_iff (liveChrs_scanFill hlive h)).mpr (List.Nodup.cons hnot hd)
  · exact hd

theorem Distinct.replace {node : ScanNode n} (hd : node.Distinct) {ptr : TriePtr} (hlive : ptr.IsLive) :
    (node.replace ptr).2.Distinct := by
  unfold ScanNode.replace
  split
  · rename_i ptrs h
    show (liveChrs ptrs).Nodup
    rw [liveChrs_scanReplace hlive h]
    exact hd
  · exact hd

/-- On a full node the bytes of the live slots are the bytes of all slots. -/
theorem liveChrs_of_full (node : ScanNode n) (hall : ∀ p ∈ node.ptrs, p.IsLive) :
    liveChrs node.ptrs = node.ptrs.map (·.chr) := by
  simp [liveChrs, List.filter_eq_self.mpr (fun p hp => decide_eq_true (hall p hp))]

end ScanNode

/-! ### `TrieNode48::from_node16` -/

/-- One turn of the index loop of `from_node16`: `indexes[ptrs[i].chr() as usize] = i as i8`. -/
def recordSlot (indexes : List Int8) (entry : TriePtr × Nat) : List Int8 :=
  indexes.set entry.1.chr.toNat (Int8.ofNat entry.2)

theorem recordSlot_lt : ∀ (ps : List TriePtr) (k : Nat) (init : List Int8),
    k + ps.length ≤ 48 → (∀ x ∈ init, x < 48) → ∀ x ∈ (ps.zipIdx k).foldl recordSlot init, x < 48
  | [], _, _, _, hinit => hinit
  | p :: ps, k, init, hlen, hinit => by
    rw [List.zipIdx_cons, List.foldl_cons]
    apply recordSlot_lt ps (k + 1) _ (by simp at hlen; omega)
    intro x hx
    rcases List.mem_or_eq_of_mem_set hx with hx | rfl
    · exact hinit x hx
    · exact ofNat_slot_lt (by simp at hlen; omega)

theorem length_foldl_recordSlot : ∀ (entries : List (TriePtr × Nat)) (init : List Int8),
    (entries.foldl recordSlot init).length = init.length
  | [], _ => rfl
  | e :: es, init => by
    rw [List.foldl_cons, length_foldl_recordSlot es, recordSlot, List.length_set]

/-- After the loop over slots at distinct bytes, a byte's index is its slot, or
what it was before. -/
theorem getD_foldl_recordSlot (c : UInt8) : ∀ (ps : List TriePtr) (k : Nat) (init : List Int8),
    init.length = 256 → (ps.map (·.chr)).Nodup →
    ((ps.zipIdx k).foldl recordSlot init).getD c.toNat (-1) =
      match ps.findIdx? fun p => decide (p.chr = c) with
      | some j => Int8.ofNat (k + j)
      | none => init.getD c.toNat (-1)
  | [], _, _, _, _ => rfl
  | p :: ps, k, init, hinit, hnodup => by
    rw [List.map_cons, List.nodup_cons] at hnodup
    have hlen : (recordSlot init (p, k)).length = 256 := by simp [recordSlot, hinit]
    rw [List.zipIdx_cons, List.foldl_cons, getD_foldl_recordSlot c ps (k + 1) _ hlen hnodup.2,
      List.findIdx?_cons]
    by_cases hpc : p.chr = c
    -- the byte of this slot: no later slot has it
    · have hnone : (ps.findIdx? fun p => decide (p.chr = c)) = none := by
        rw [List.findIdx?_eq_none_iff]
        intro q hq
        have : q.chr ≠ c := fun h => hnodup.1 (hpc ▸ h ▸ List.mem_map_of_mem hq)
        simpa using this
      subst hpc
      rw [hnone, recordSlot, getD_set_of_lt _ _ _ (by rw [hinit]; exact UInt8.toNat_lt_256 _)]
      simp
    · have hne : ¬ p.chr.toNat = c.toNat := fun h => hpc (UInt8.toNat_inj.mp h)
      cases ps.findIdx? fun p => decide (p.chr = c) with
      | some j =>
        simp only [hpc, decide_false, Bool.false_eq_true, if_false, Option.map_some]
        congr 1
        omega
      | none =>
        rw [recordSlot, getD_set_of_lt _ _ _ (by rw [hinit]; exact UInt8.toNat_lt_256 _)]
        simp [hpc, hne]

namespace TrieNode48

/-- `TrieNode48::from_node16`: the sixteen slots, then 32 empty ones, and for
each slot in order the index of its byte. -/
def fromNode16 (node16 : TrieNode16) : TrieNode48 where
  path := node16.path
  indexes := (node16.ptrs.zipIdx).foldl recordSlot (List.replicate 256 (-1))
  ptrs := node16.ptrs ++ List.replicate 32 TriePtr.default
  length_indexes := (length_foldl_recordSlot _ _).trans List.length_replicate
  length_ptrs := by rw [List.length_append, node16.length_ptrs, List.length_replicate]
  indexes_lt := recordSlot_lt node16.ptrs 0 _ (by rw [node16.length_ptrs]; omega)
    (fun x hx => by rw [List.eq_of_mem_replicate hx]; decide)

end TrieNode48

/-- In slots at distinct bytes, the first slot at the byte of slot `k` is `k`. -/
theorem findIdx_chr_of_nodup {ps : List TriePtr} (hnodup : (ps.map (·.chr)).Nodup) {k : Nat}
    (hk : k < ps.length) : (ps.findIdx? fun p => decide (p.chr = (ps.get ⟨k, hk⟩).chr)) = some k := by
  rw [List.findIdx?_eq_some_iff_getElem]
  refine ⟨hk, by simp, fun j hj => ?_⟩
  have hj' : j < (ps.map (·.chr)).length := by simp; omega
  have hk' : k < (ps.map (·.chr)).length := by simpa using hk
  intro h
  have heq : (ps.map (·.chr))[j] = (ps.map (·.chr))[k] := by simpa using h
  have := (hnodup.getElem_inj_iff).mp heq
  omega

/-- In slots that are all live, `walk` is read off the first slot at the byte. -/
theorem scanWalk_eq_findIdx {ps : List TriePtr} (hall : ∀ p ∈ ps, p.IsLive) (c : UInt8) :
    scanWalk ps c = (ps.findIdx? fun p => decide (p.chr = c)).map fun j => ps.getD j TriePtr.default := by
  rw [scanWalk_of_live c hall]
  cases h : ps.findIdx? fun p => decide (p.chr = c) with
  | none =>
    rw [List.findIdx?_eq_none_iff] at h
    rw [Option.map_none, List.find?_eq_none]
    intro q hq
    simp [h q hq]
  | some j =>
    obtain ⟨hj, hpj, hbefore⟩ := List.findIdx?_eq_some_iff_getElem.mp h
    rw [Option.map_some, List.find?_eq_some_iff_getElem]
    refine ⟨by simpa [List.getD_eq_getElem?_getD, hj] using hpj, j, hj,
      by simp [List.getD_eq_getElem?_getD, hj], fun i hi => by simpa using hbefore i hi⟩

namespace TrieNode48

variable {node16 : TrieNode16}

theorem slot_fromNode16 (node16 : TrieNode16) (i : Nat) :
    (fromNode16 node16).slot i = node16.ptrs.getD i TriePtr.default := by
  simp only [slot, fromNode16]
  by_cases hi : i < node16.ptrs.length
  · exact List.getD_append _ _ _ _ hi
  · rw [List.getD_append_right _ _ _ _ (by omega),
      List.getD_eq_default node16.ptrs _ (by omega)]
    by_cases hi' : i - node16.ptrs.length < 32
    · exact List.getD_replicate _ hi'
    · exact List.getD_eq_default _ _ (by rw [List.length_replicate]; omega)

theorem index_fromNode16 (hnodup : (node16.ptrs.map (·.chr)).Nodup) (c : UInt8) :
    (fromNode16 node16).index c =
      ((node16.ptrs.findIdx? fun p => decide (p.chr = c)).map Int8.ofNat).getD (-1) := by
  simp only [index, fromNode16]
  rw [getD_foldl_recordSlot c _ 0 _ List.length_replicate hnodup]
  cases node16.ptrs.findIdx? fun p => decide (p.chr = c) with
  | some j => simp
  | none =>
    rw [Option.map_none, Option.getD_none]
    exact List.getD_replicate _ (UInt8.toNat_lt_256 c)

/-- Promoting a full `TrieNode16` whose children are at distinct bytes, as
`insert_leaf` does, gives a consistent `TrieNode48`. -/
theorem fromNode16_consistent (hall : ∀ p ∈ node16.ptrs, p.IsLive)
    (hnodup : (node16.ptrs.map (·.chr)).Nodup) : (fromNode16 node16).Consistent := by
  constructor
  · intro c h0
    rw [index_fromNode16 hnodup] at h0
    cases hfind : node16.ptrs.findIdx? fun p => decide (p.chr = c) with
    | none =>
      rw [hfind] at h0
      exact absurd h0 (by decide)
    | some j =>
      obtain ⟨hj, hjc, -⟩ := List.findIdx?_eq_some_iff_getElem.mp hfind
      have hj48 : j < 48 := by rw [node16.length_ptrs] at hj; omega
      have hslot : (fromNode16 node16).slotOf c = node16.ptrs[j] := by
        rw [slotOf, index_fromNode16 hnodup, hfind]
        simp [toNatClampNeg_ofNat_slot hj48, slot_fromNode16, List.getD_eq_getElem?_getD, hj]
      rw [hslot]
      exact ⟨hall _ (List.getElem_mem hj), by simpa using hjc⟩
  · intro k hk hlive
    rw [slot_fromNode16] at hlive ⊢
    -- a live slot is one of the sixteen
    have hk16 : k < node16.ptrs.length := by
      by_contra hge
      rw [List.getD_eq_default _ _ (by omega)] at hlive
      exact TriePtr.not_isLive_default hlive
    have hget : node16.ptrs.getD k TriePtr.default = node16.ptrs.get ⟨k, hk16⟩ := by
      simp [List.getD_eq_getElem?_getD, hk16]
    rw [hget, index_fromNode16 hnodup, findIdx_chr_of_nodup hnodup hk16]
    rfl

/-- That promotion keeps every child. -/
theorem walk_fromNode16 (hall : ∀ p ∈ node16.ptrs, p.IsLive)
    (hnodup : (node16.ptrs.map (·.chr)).Nodup) : (fromNode16 node16).walk = node16.walk := by
  funext c
  rw [walk_eq (fromNode16_consistent hall hnodup), index_fromNode16 hnodup]
  show _ = scanWalk node16.ptrs c
  rw [scanWalk_eq_findIdx hall]
  cases hfind : node16.ptrs.findIdx? fun p => decide (p.chr = c) with
  | none => simp
  | some j =>
    obtain ⟨hj, -, -⟩ := List.findIdx?_eq_some_iff_getElem.mp hfind
    have hj48 : j < 48 := by rw [node16.length_ptrs] at hj; omega
    simp [ofNat_slot_nonneg hj48, slotOf, index_fromNode16 hnodup, hfind,
      toNatClampNeg_ofNat_slot hj48, slot_fromNode16]

end TrieNode48

/-! ### Node types, `insert_leaf` and `splice_leaf` -/

inductive TrieNodeType where
  | node4 (data : TrieNode4)
  | node16 (data : TrieNode16)
  | node48 (data : TrieNode48)
  | node256 (data : TrieNode256)
  | leaf (data : TrieLeaf)

namespace TrieNodeType

def walk : TrieNodeType → UInt8 → Option TriePtr
  | node4 data, chr => data.walk chr
  | node16 data, chr => data.walk chr
  | node48 data, chr => data.walk chr
  | node256 data, chr => data.walk chr
  | leaf _, _ => none

def ptrs : TrieNodeType → List TriePtr
  | node4 data => data.ptrs
  | node16 data => data.ptrs
  | node48 data => data.ptrs
  | node256 data => data.ptrs
  | leaf _ => []

def isLeaf : TrieNodeType → Bool
  | leaf _ => true
  | _ => false

/-- `insert`; a leaf panics with "can't insert into a leaf". -/
def insert : TrieNodeType → TriePtr → Outcome Empty (Bool × TrieNodeType)
  | node4 data, ptr => .ok ((data.insert ptr).1, node4 (data.insert ptr).2)
  | node16 data, ptr => .ok ((data.insert ptr).1, node16 (data.insert ptr).2)
  | node48 data, ptr => .ok ((data.insert ptr).1, node48 (data.insert ptr).2)
  | node256 data, ptr => .ok ((data.insert ptr).1, node256 (data.insert ptr).2)
  | leaf _, _ => .panic

/-- `replace`; a leaf panics with "can't replace in a leaf". -/
def replace : TrieNodeType → TriePtr → Outcome Empty (Bool × TrieNodeType)
  | node4 data, ptr => .ok ((data.replace ptr).1, node4 (data.replace ptr).2)
  | node16 data, ptr => .ok ((data.replace ptr).1, node16 (data.replace ptr).2)
  | node48 data, ptr => .ok ((data.replace ptr).1, node48 (data.replace ptr).2)
  | node256 data, ptr => .ok ((data.replace ptr).1, node256 (data.replace ptr).2)
  | leaf _, _ => .panic

/-- The promotion of `insert_leaf` for a node without space. -/
def promote : TrieNodeType → Outcome Empty TrieNodeType
  | node4 data => .ok (node16 (TrieNode16.fromNode4 data))
  | node16 data => .ok (node48 (TrieNode48.fromNode16 data))
  | node48 data => .ok (node256 (TrieNode256.fromNode48 data))
  | node256 _ => .panic
  | leaf _ => .panic

/-- The invariants each kind keeps: distinct bytes in the scanned nodes, an index
array consistent with the slots in a `TrieNode48`, each live slot at its own byte
in a `TrieNode256`. A leaf has no children. -/
def WellFormed : TrieNodeType → Prop
  | node4 data => data.Distinct
  | node16 data => data.Distinct
  | node48 data => data.Consistent
  | node256 data => data.WellFormed
  | leaf _ => False

@[simp] theorem walk_node4 (data : TrieNode4) : (node4 data).walk = data.walk := rfl
@[simp] theorem walk_node16 (data : TrieNode16) : (node16 data).walk = data.walk := rfl
@[simp] theorem walk_node48 (data : TrieNode48) : (node48 data).walk = data.walk := rfl
@[simp] theorem walk_node256 (data : TrieNode256) : (node256 data).walk = data.walk := rfl

end TrieNodeType

end BlockstackCore
