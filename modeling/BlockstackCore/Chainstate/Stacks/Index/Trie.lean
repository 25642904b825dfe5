import BlockstackCore.Chainstate.Stacks.Index.Bits

/-!
# Child maps and attaching children: `insert_leaf` and `splice_leaf`

A node's children are a partial map from path byte to pointer, read by `walk`.
Each kind's `insert` and `replace` of a live pointer on a well-formed node
write it at its byte, and a run of such calls leaves at each byte the pointer
written there last (`runNodeCalls_spec`).

`insert_leaf` puts a leaf's pointer into the node the cursor stopped at,
promoting the node to the next kind when it has no space; `splice_leaf` splits
a node's compressed path and builds a `TrieNode4` with the new leaf and the
split node as its children, promoting it to a `TrieNode256` when the split node
was the root. Every promotion `insert_leaf` makes is of a full node, and keeps
every child (`insertLeafPtr_eq`). `add_value` splices only inside a node's
path (`lt_of_addValueBranch_eq_spliceLeaf`), so never at a root whose path is
empty, which is how the MARF makes every root.
-/

namespace BlockstackCore

/-- `Trie::node_has_space`: a free slot, or a slot at the byte. -/
def nodeHasSpace (chr : UInt8) (children : List TriePtr) : Bool :=
  children.any fun p => decide (¬ p.IsLive ∨ p.chr = chr)

/-- What `insert_leaf` does to the node's children: `try_attach_leaf` inserts the
leaf's pointer if the node has space (asserting that the insert succeeded);
otherwise the node is promoted and the pointer inserted into the promoted node
(asserting the same). -/
def insertLeafPtr (node : TrieNodeType) (leafPtr : TriePtr) : Outcome Empty TrieNodeType :=
  if nodeHasSpace leafPtr.chr node.ptrs then do
    let (inserted, node) ← node.insert leafPtr
    if inserted then .ok node else .panic
  else do
    let newNode ← node.promote
    let (inserted, newNode) ← newNode.insert leafPtr
    if inserted then .ok newNode else .panic

theorem nodeHasSpace_eq_false_iff {chr : UInt8} {children : List TriePtr} :
    nodeHasSpace chr children = false ↔ ∀ p ∈ children, p.IsLive ∧ p.chr ≠ chr := by
  simp [nodeHasSpace]

section InsertLeaf

variable {leafPtr : TriePtr}

theorem insertLeafPtr_of_hasSpace {node node' : TrieNodeType}
    (hspace : nodeHasSpace leafPtr.chr node.ptrs = true)
    (hins : node.insert leafPtr = .ok (true, node')) : insertLeafPtr node leafPtr = .ok node' := by
  simp [insertLeafPtr, hspace, hins]

theorem insertLeafPtr_of_promote {node promoted node' : TrieNodeType}
    (hspace : nodeHasSpace leafPtr.chr node.ptrs = false) (hpromote : node.promote = .ok promoted)
    (hins : promoted.insert leafPtr = .ok (true, node')) : insertLeafPtr node leafPtr = .ok node' := by
  simp [insertLeafPtr, hspace, hpromote, hins]

/-- A scanned node with space takes the pointer. -/
theorem ScanNode.insert_of_hasSpace {n : Nat} {node : ScanNode n}
    (hspace : nodeHasSpace leafPtr.chr node.ptrs = true) : (node.insert leafPtr).1 = true := by
  by_contra hins
  obtain ⟨hall, hnone, -⟩ := node.insert_eq_false leafPtr (by simpa using hins)
  obtain ⟨p, hp, hfree⟩ := List.any_eq_true.mp hspace
  rcases decide_eq_true_iff.mp hfree with hfree | hchr
  · exact hfree (hall p hp)
  · have : leafPtr.chr ∈ liveChrs node.ptrs := by
      simp only [liveChrs, List.mem_map, List.mem_filter, decide_eq_true_iff]
      exact ⟨p, ⟨hp, hall p hp⟩, hchr⟩
    exact (mem_liveChrs_iff _).mp this hnone

/-- A consistent `TrieNode48` with space takes the pointer. -/
theorem TrieNode48.insert_of_hasSpace {node : TrieNode48} (hc : node.Consistent)
    (hspace : nodeHasSpace leafPtr.chr node.ptrs = true) : (node.insert leafPtr).1 = true := by
  by_contra hins
  obtain ⟨hall, hnone, -⟩ := TrieNode48.insert_eq_false hc (by simpa using hins)
  obtain ⟨p, hp, hfree⟩ := List.any_eq_true.mp hspace
  rcases decide_eq_true_iff.mp hfree with hfree | hchr
  · exact hfree (hall p hp)
  -- a live slot at the byte is the index of the byte, so `walk` finds it
  · obtain ⟨i, hi, rfl⟩ := List.getElem_of_mem hp
    have hi48 : i < 48 := node.length_ptrs ▸ hi
    have hidx := hc.slot_index i hi48 (TrieNode48.slot_eq_getElem hi ▸ hall _ hp)
    rw [TrieNode48.slot_eq_getElem hi, hchr] at hidx
    rw [TrieNode48.walk_eq hc, hidx, if_pos (ofNat_slot_nonneg hi48)] at hnone
    exact Option.some_ne_none _ hnone

theorem TrieNode16.fromNode4_distinct {node4 : TrieNode4} (hd : node4.Distinct) :
    (TrieNode16.fromNode4 node4).Distinct := by
  have : liveChrs (node4.ptrs ++ List.replicate 12 TriePtr.default) = liveChrs node4.ptrs := by
    simp [liveChrs, List.filter_append, TriePtr.not_isLive_default]
  show (liveChrs (node4.ptrs ++ List.replicate 12 TriePtr.default)).Nodup
  rw [this]
  exact hd

/-- A promoted `TrieNode16` has free slots, so it takes the pointer. -/
theorem TrieNode16.insert_fromNode4 (node4 : TrieNode4) :
    ((TrieNode16.fromNode4 node4).insert leafPtr).1 = true := by
  by_contra hins
  obtain ⟨hall, -, -⟩ := ScanNode.insert_eq_false _ leafPtr (by simpa using hins)
  have hmem : TriePtr.default ∈ node4.ptrs ++ List.replicate 12 TriePtr.default :=
    List.mem_append_right _ (List.mem_replicate.mpr ⟨by decide, rfl⟩)
  exact TriePtr.not_isLive_default (hall _ hmem)

/-- A promoted `TrieNode48` has free slots, so it takes the pointer. -/
theorem TrieNode48.insert_fromNode16 {node16 : TrieNode16}
    (hc : (TrieNode48.fromNode16 node16).Consistent) :
    ((TrieNode48.fromNode16 node16).insert leafPtr).1 = true := by
  by_contra hins
  obtain ⟨hall, -, -⟩ := TrieNode48.insert_eq_false hc (by simpa using hins)
  have hmem : TriePtr.default ∈ node16.ptrs ++ List.replicate 32 TriePtr.default :=
    List.mem_append_right _ (List.mem_replicate.mpr ⟨by decide, rfl⟩)
  exact TriePtr.not_isLive_default (hall _ hmem)

/-- Spreading slots gives each live slot its own byte. -/
theorem TrieNode256.spread_wellFormed (path : List UInt8) (ptrs : List TriePtr) :
    (⟨path, spreadByChr (List.replicate 256 TriePtr.default) ptrs,
      (length_spreadByChr _ _).trans List.length_replicate⟩ : TrieNode256).WellFormed := by
  intro c hc
  rw [TrieNode256.slot_spread] at hc ⊢
  cases h : ptrs.reverse.find? fun p => decide (p.chr = c) with
  | none =>
    rw [h] at hc
    exact absurd hc TriePtr.not_isLive_default
  | some p => simpa using List.find?_some h

/-- A well-formed `TrieNode256` always has space: the slot of the byte is free
or holds that byte. -/
theorem TrieNode256.hasSpace {node : TrieNode256} (hwf : node.WellFormed) (c : UInt8) :
    nodeHasSpace c node.ptrs = true := by
  by_contra hfull
  have hall := nodeHasSpace_eq_false_iff.mp (by simpa using hfull)
  have hlt : c.toNat < node.ptrs.length := by rw [node.length_ptrs]; exact UInt8.toNat_lt_256 c
  have hslot : node.slot c = node.ptrs[c.toNat] := by
    simp [TrieNode256.slot, List.getD_eq_getElem?_getD, hlt]
  have hmem := hall _ (List.getElem_mem hlt)
  rw [← hslot] at hmem
  exact hmem.2 (hwf c hmem.1)

theorem insertLeafPtr_node4 {data : TrieNode4} (hd : data.Distinct) (hlive : leafPtr.IsLive) :
    ∃ node', insertLeafPtr (.node4 data) leafPtr = .ok node' ∧
      node'.walk = Function.update data.walk leafPtr.chr (some leafPtr) ∧ node'.WellFormed := by
  by_cases hspace : nodeHasSpace leafPtr.chr data.ptrs
  · have hins := ScanNode.insert_of_hasSpace hspace
    refine ⟨.node4 (data.insert leafPtr).2, ?_, data.walk_insert hlive hins, hd.insert hlive⟩
    exact insertLeafPtr_of_hasSpace hspace (by simp [TrieNodeType.insert, hins])
  -- a full `TrieNode4` becomes a `TrieNode16` with twelve free slots
  · have hins : ((TrieNode16.fromNode4 data).insert leafPtr).1 = true :=
      TrieNode16.insert_fromNode4 data
    refine ⟨.node16 ((TrieNode16.fromNode4 data).insert leafPtr).2, ?_, ?_,
      (TrieNode16.fromNode4_distinct hd).insert hlive⟩
    · exact insertLeafPtr_of_promote (Bool.eq_false_iff.mpr hspace) rfl
        (by simp [TrieNodeType.insert, hins])
    · rw [TrieNodeType.walk_node16, ScanNode.walk_insert _ hlive hins, TrieNode16.walk_fromNode4]

theorem insertLeafPtr_node16 {data : TrieNode16} (hd : data.Distinct) (hlive : leafPtr.IsLive) :
    ∃ node', insertLeafPtr (.node16 data) leafPtr = .ok node' ∧
      node'.walk = Function.update data.walk leafPtr.chr (some leafPtr) ∧ node'.WellFormed := by
  by_cases hspace : nodeHasSpace leafPtr.chr data.ptrs
  · have hins := ScanNode.insert_of_hasSpace hspace
    refine ⟨.node16 (data.insert leafPtr).2, ?_, data.walk_insert hlive hins, hd.insert hlive⟩
    exact insertLeafPtr_of_hasSpace hspace (by simp [TrieNodeType.insert, hins])
  -- a full `TrieNode16` has its sixteen bytes distinct, so its index array is consistent
  · have hall : ∀ p ∈ data.ptrs, p.IsLive := fun p hp =>
      (nodeHasSpace_eq_false_iff.mp (Bool.eq_false_iff.mpr hspace) p hp).1
    have hnodup : (data.ptrs.map (·.chr)).Nodup := ScanNode.liveChrs_of_full data hall ▸ hd
    have hc := TrieNode48.fromNode16_consistent hall hnodup
    have hins : ((TrieNode48.fromNode16 data).insert leafPtr).1 = true :=
      TrieNode48.insert_fromNode16 hc
    obtain ⟨hwalk, hc'⟩ := TrieNode48.walk_insert hc hlive hins
    refine ⟨.node48 ((TrieNode48.fromNode16 data).insert leafPtr).2, ?_, ?_, hc'⟩
    · exact insertLeafPtr_of_promote (Bool.eq_false_iff.mpr hspace) rfl
        (by simp [TrieNodeType.insert, hins])
    · rw [TrieNodeType.walk_node48, hwalk, TrieNode48.walk_fromNode16 hall hnodup]

theorem insertLeafPtr_node48 {data : TrieNode48} (hc : data.Consistent) (hlive : leafPtr.IsLive) :
    ∃ node', insertLeafPtr (.node48 data) leafPtr = .ok node' ∧
      node'.walk = Function.update data.walk leafPtr.chr (some leafPtr) ∧ node'.WellFormed := by
  by_cases hspace : nodeHasSpace leafPtr.chr data.ptrs
  · have hins := TrieNode48.insert_of_hasSpace hc hspace
    obtain ⟨hwalk, hc'⟩ := TrieNode48.walk_insert hc hlive hins
    refine ⟨.node48 (data.insert leafPtr).2, ?_, hwalk, hc'⟩
    exact insertLeafPtr_of_hasSpace hspace (by simp [TrieNodeType.insert, hins])
  -- a full `TrieNode48` is spread over a `TrieNode256`, which takes any byte
  · have hall : ∀ p ∈ data.ptrs, p.IsLive := fun p hp =>
      (nodeHasSpace_eq_false_iff.mp (Bool.eq_false_iff.mpr hspace) p hp).1
    have hwf : (TrieNode256.fromNode48 data).WellFormed := TrieNode256.spread_wellFormed _ _
    obtain ⟨hins, hwalk⟩ := (TrieNode256.fromNode48 data).walk_insert hlive
    refine ⟨.node256 ((TrieNode256.fromNode48 data).insert leafPtr).2, ?_, ?_, hwf.insert leafPtr⟩
    · exact insertLeafPtr_of_promote (Bool.eq_false_iff.mpr hspace) rfl
        (by simp [TrieNodeType.insert, hins])
    · rw [TrieNodeType.walk_node256, hwalk, TrieNode256.walk_fromNode48_of_full hc hall]

theorem insertLeafPtr_node256 {data : TrieNode256} (hwf : data.WellFormed) (hlive : leafPtr.IsLive) :
    ∃ node', insertLeafPtr (.node256 data) leafPtr = .ok node' ∧
      node'.walk = Function.update data.walk leafPtr.chr (some leafPtr) ∧ node'.WellFormed := by
  obtain ⟨hins, hwalk⟩ := data.walk_insert hlive
  refine ⟨.node256 (data.insert leafPtr).2, ?_, hwalk, hwf.insert leafPtr⟩
  exact insertLeafPtr_of_hasSpace (TrieNode256.hasSpace hwf _) (by simp [TrieNodeType.insert, hins])

/-- `insert_leaf` on a well-formed node adds the leaf's pointer as the child at
its byte and keeps the node well formed: none of its promotions loses a child,
and neither of its assertions fails. -/
theorem insertLeafPtr_eq {node : TrieNodeType} (hwf : node.WellFormed) (hlive : leafPtr.IsLive) :
    ∃ node', insertLeafPtr node leafPtr = .ok node' ∧
      node'.walk = Function.update node.walk leafPtr.chr (some leafPtr) ∧ node'.WellFormed := by
  cases node with
  | node4 data => exact insertLeafPtr_node4 hwf hlive
  | node16 data => exact insertLeafPtr_node16 hwf hlive
  | node48 data => exact insertLeafPtr_node48 hwf hlive
  | node256 data => exact insertLeafPtr_node256 hwf hlive
  | leaf data => exact hwf.elim

/-- Folding updates over a run: the last entry at a key, or the map's own value. -/
theorem foldl_update_apply {κ α : Type} [DecidableEq κ] (key : α → κ) (c : κ) :
    ∀ (xs : List α) (m : κ → Option α),
      xs.foldl (fun m x => Function.update m (key x) (some x)) m c =
        (xs.reverse.find? fun x => decide (key x = c)).or (m c)
  | [], _ => rfl
  | x :: xs, m => by
    rw [List.foldl_cons, foldl_update_apply key c xs, List.reverse_cons, List.find?_append]
    by_cases hx : key x = c
    · subst hx
      simp
    · simp [hx, Function.update_of_ne (Ne.symm hx)]

end InsertLeaf

/-! ### `splice_leaf` -/

/-- The `TrieNode4` that `splice_leaf` builds where a node's path is split: the
shared prefix as its path, the new leaf and the split node as its children. -/
def spliceNode4 (sharedPathPrefix : List UInt8) (leafPtr newCurNodePtr : TriePtr) : TrieNode4 :=
  (((ScanNode.new sharedPathPrefix : TrieNode4).insert leafPtr).2.insert newCurNodePtr).2

/-- The node `splice_leaf` writes in the split node's place. When the cursor has
visited one node, the split node is the root, and the `TrieNode4` is promoted
with `TrieNode256::from_node4` so that the root stays a `TrieNode256`. -/
def spliceNewNode (nodePtrsLen : Nat) (sharedPathPrefix : List UInt8)
    (leafPtr newCurNodePtr : TriePtr) : TrieNodeType :=
  if nodePtrsLen = 1 then
    .node256 (TrieNode256.fromNode4 (spliceNode4 sharedPathPrefix leafPtr newCurNodePtr))
  else .node4 (spliceNode4 sharedPathPrefix leafPtr newCurNodePtr)

theorem ScanNode.ptrs_insert_of_scanInsert {n : Nat} {node : ScanNode n} {ptr : TriePtr}
    {ptrs : List TriePtr} (h : scanInsert ptr node.ptrs = some ptrs) : (node.insert ptr).2.ptrs = ptrs := by
  unfold ScanNode.insert
  split
  · rename_i ptrs' h'
    rw [h] at h'
    cases h'
    rfl
  · rename_i h'
    rw [h] at h'
    cases h'

section Splice

variable {sharedPathPrefix : List UInt8} {leafPtr newCurNodePtr : TriePtr}

/-- The two children of the splice fill the first two slots; the other two stay
empty, at byte 0. -/
theorem ptrs_spliceNode4 (hleaf : leafPtr.IsLive) (hne : leafPtr.chr ≠ newCurNodePtr.chr) :
    (spliceNode4 sharedPathPrefix leafPtr newCurNodePtr).ptrs =
      [leafPtr, newCurNodePtr, TriePtr.default, TriePtr.default] := by
  have hfirst : ((ScanNode.new sharedPathPrefix : TrieNode4).insert leafPtr).2.ptrs =
      [leafPtr, TriePtr.default, TriePtr.default, TriePtr.default] := by
    apply ScanNode.ptrs_insert_of_scanInsert
    simp [ScanNode.new, scanInsert, scanReplace, scanFill, TriePtr.not_isLive_default]
  apply ScanNode.ptrs_insert_of_scanInsert
  rw [hfirst]
  simp [scanInsert, scanReplace, scanFill, TriePtr.not_isLive_default, hleaf, hne]

/-- Away from the root the splice's node has exactly its two children. -/
theorem walk_spliceNode4 (hleaf : leafPtr.IsLive) (hcur : newCurNodePtr.IsLive)
    (hne : leafPtr.chr ≠ newCurNodePtr.chr) :
    (spliceNode4 sharedPathPrefix leafPtr newCurNodePtr).walk =
      Function.update (Function.update (fun _ => none) leafPtr.chr (some leafPtr))
        newCurNodePtr.chr (some newCurNodePtr) := by
  funext c
  rw [ScanNode.walk, ptrs_spliceNode4 hleaf hne]
  by_cases hcc : c = newCurNodePtr.chr
  · subst hcc
    simp [scanWalk, hne, hcur]
  · rw [Function.update_of_ne hcc]
    by_cases hl : c = leafPtr.chr
    · subst hl
      simp [scanWalk, hleaf]
    · rw [Function.update_of_ne hl]
      simp [scanWalk, Ne.symm hl, Ne.symm hcc, TriePtr.not_isLive_default]

end Splice

/-! ### Calls on a node's children -/

/-- The two calls the trie code makes on a node's children. -/
inductive NodeCall where
  | insert (ptr : TriePtr)
  | replace (ptr : TriePtr)
  deriving DecidableEq, Repr

def NodeCall.ptr : NodeCall → TriePtr
  | .insert ptr => ptr
  | .replace ptr => ptr

/-- A call on a node: `TrieNodeType::insert` or `TrieNodeType::replace`. -/
def TrieNodeType.call (node : TrieNodeType) : NodeCall → Outcome Empty (Bool × TrieNodeType)
  | .insert ptr => node.insert ptr
  | .replace ptr => node.replace ptr

/-- A run of calls on one node: the node they leave, and the pointers of the
calls that wrote (returned `true`), in call order. -/
def runNodeCalls : TrieNodeType → List NodeCall → Outcome Empty (TrieNodeType × List TriePtr)
  | node, [] => .ok (node, [])
  | node, c :: cs => do
    let (written, node) ← node.call c
    let (node, ws) ← runNodeCalls node cs
    .ok (node, if written then c.ptr :: ws else ws)

section Calls

variable {ptr : TriePtr}

/-- `replace` in the form of its result: it writes exactly when the byte has a
child. -/
theorem ite_walk_of_written {m : UInt8 → Option TriePtr} {b : Bool}
    (hb : b = true ↔ m ptr.chr ≠ none) :
    (if m ptr.chr = none then m else Function.update m ptr.chr (some ptr)) =
      if b then Function.update m ptr.chr (some ptr) else m := by
  cases b
  · rw [if_pos (by simpa using hb)]
    rfl
  · rw [if_neg (hb.mp rfl)]
    rfl

theorem ScanNode.insert_spec {n : Nat} {data : ScanNode n} (hd : data.Distinct) (hlive : ptr.IsLive) :
    (data.insert ptr).2.Distinct ∧
      (data.insert ptr).2.walk =
        (if (data.insert ptr).1 then Function.update data.walk ptr.chr (some ptr) else data.walk) ∧
      ((data.insert ptr).1 = false →
        (∀ p ∈ data.ptrs, p.IsLive) ∧ (data.ptrs.map (·.chr)).Nodup ∧ data.walk ptr.chr = none ∧
          (data.insert ptr).2 = data) := by
  refine ⟨hd.insert hlive, ?_, fun hins => ?_⟩
  · cases hins : (data.insert ptr).1
    · obtain ⟨-, -, heq⟩ := data.insert_eq_false ptr hins
      rw [if_neg Bool.false_ne_true, heq]
    · rw [if_pos rfl]
      exact data.walk_insert hlive hins
  · obtain ⟨hall, hnone, heq⟩ := data.insert_eq_false ptr hins
    exact ⟨hall, data.liveChrs_of_full hall ▸ hd, hnone, heq⟩

theorem TrieNode48.insert_spec {data : TrieNode48} (hc : data.Consistent) (hlive : ptr.IsLive) :
    (data.insert ptr).2.Consistent ∧
      (data.insert ptr).2.walk =
        (if (data.insert ptr).1 then Function.update data.walk ptr.chr (some ptr) else data.walk) ∧
      ((data.insert ptr).1 = false →
        (∀ p ∈ data.ptrs, p.IsLive) ∧ (data.ptrs.map (·.chr)).Nodup ∧ data.walk ptr.chr = none ∧
          (data.insert ptr).2 = data) := by
  cases hins : (data.insert ptr).1
  · obtain ⟨hall, hnone, heq⟩ := TrieNode48.insert_eq_false hc hins
    rw [heq, if_neg Bool.false_ne_true]
    exact ⟨hc, rfl, fun _ => ⟨hall, TrieNode256.nodup_chr_of_consistent hc hall, hnone, rfl⟩⟩
  · obtain ⟨hwalk, hc'⟩ := TrieNode48.walk_insert hc hlive hins
    rw [if_pos rfl]
    exact ⟨hc', hwalk, fun h => absurd h (by decide)⟩

/-- `insert` of a live pointer into a well-formed node. When it writes, the
pointer becomes the child at its byte. When it does not, the node is full, its
bytes are distinct and none is the pointer's, and nothing changes. -/
theorem TrieNodeType.insert_spec {node : TrieNodeType} (hwf : node.WellFormed) (hlive : ptr.IsLive) :
    ∃ b node', node.insert ptr = .ok (b, node') ∧ node'.WellFormed ∧
      node'.walk = (if b then Function.update node.walk ptr.chr (some ptr) else node.walk) ∧
      (b = false → (∀ p ∈ node.ptrs, p.IsLive) ∧ (node.ptrs.map (·.chr)).Nodup ∧
        node.walk ptr.chr = none ∧ node' = node) := by
  cases node with
  | node4 data =>
    obtain ⟨hd, hwalk, hfalse⟩ := ScanNode.insert_spec hwf hlive
    refine ⟨_, _, rfl, hd, hwalk, fun h => ?_⟩
    obtain ⟨hall, hnodup, hnone, heq⟩ := hfalse h
    exact ⟨hall, hnodup, hnone, congrArg _ heq⟩
  | node16 data =>
    obtain ⟨hd, hwalk, hfalse⟩ := ScanNode.insert_spec hwf hlive
    refine ⟨_, _, rfl, hd, hwalk, fun h => ?_⟩
    obtain ⟨hall, hnodup, hnone, heq⟩ := hfalse h
    exact ⟨hall, hnodup, hnone, congrArg _ heq⟩
  | node48 data =>
    obtain ⟨hc, hwalk, hfalse⟩ := TrieNode48.insert_spec hwf hlive
    refine ⟨_, _, rfl, hc, hwalk, fun h => ?_⟩
    obtain ⟨hall, hnodup, hnone, heq⟩ := hfalse h
    exact ⟨hall, hnodup, hnone, congrArg _ heq⟩
  -- a `TrieNode256` has a slot for every byte, so its `insert` always writes
  | node256 data =>
    obtain ⟨hins, hwalk⟩ := data.walk_insert hlive
    refine ⟨_, _, rfl, TrieNode256.WellFormed.insert hwf ptr, ?_, fun h => absurd (hins.symm.trans h) (by decide)⟩
    rw [hins, if_pos rfl]
    exact hwalk
  | leaf data => exact hwf.elim

/-- `replace` of a live pointer in a well-formed node writes exactly when the
byte has a child, and then makes the pointer that child. -/
theorem TrieNodeType.replace_spec {node : TrieNodeType} (hwf : node.WellFormed) (hlive : ptr.IsLive) :
    ∃ b node', node.replace ptr = .ok (b, node') ∧ node'.WellFormed ∧
      (b = true ↔ node.walk ptr.chr ≠ none) ∧
      node'.walk = (if b then Function.update node.walk ptr.chr (some ptr) else node.walk) := by
  cases node with
  | node4 data =>
    have hb := data.replace_eq_true_iff ptr
    exact ⟨_, _, rfl, hwf.replace hlive, hb, (data.walk_replace hlive).trans (ite_walk_of_written hb)⟩
  | node16 data =>
    have hb := data.replace_eq_true_iff ptr
    exact ⟨_, _, rfl, hwf.replace hlive, hb, (data.walk_replace hlive).trans (ite_walk_of_written hb)⟩
  | node48 data =>
    obtain ⟨hb, hwalk, hc⟩ := TrieNode48.walk_replace hwf hlive
    exact ⟨_, _, rfl, hc, hb, hwalk.trans (ite_walk_of_written hb)⟩
  | node256 data =>
    obtain ⟨hb, hwalk⟩ := TrieNode256.walk_replace hwf hlive
    exact ⟨_, _, rfl, hwf.replace ptr, hb, hwalk.trans (ite_walk_of_written hb)⟩
  | leaf data => exact hwf.elim

/-- One call: the node stays well formed, and a call that writes makes its
pointer the child at its byte. -/
theorem TrieNodeType.call_spec {node : TrieNodeType} (hwf : node.WellFormed) (c : NodeCall)
    (hlive : c.ptr.IsLive) :
    ∃ b node', node.call c = .ok (b, node') ∧ node'.WellFormed ∧
      node'.walk = (if b then Function.update node.walk c.ptr.chr (some c.ptr) else node.walk) := by
  cases c with
  | insert p =>
    obtain ⟨b, node', h, hwf', hwalk, -⟩ := TrieNodeType.insert_spec hwf hlive
    exact ⟨b, node', h, hwf', hwalk⟩
  | replace p =>
    obtain ⟨b, node', h, hwf', -, hwalk⟩ := TrieNodeType.replace_spec hwf hlive
    exact ⟨b, node', h, hwf', hwalk⟩

/-- A run of calls of live pointers on a well-formed node: the node stays well
formed, and its map is the node's own, updated by each pointer written, in
order. The induction is on the calls, one `call_spec` per step. -/
theorem runNodeCalls_spec : ∀ (calls : List NodeCall) {node : TrieNodeType}, node.WellFormed →
    (∀ c ∈ calls, c.ptr.IsLive) →
    ∃ node' written, runNodeCalls node calls = .ok (node', written) ∧ node'.WellFormed ∧
      node'.walk = written.foldl (fun (m : UInt8 → Option TriePtr) p => Function.update m p.chr (some p))
        node.walk
  | [], node, hwf, _ => ⟨node, [], rfl, hwf, rfl⟩
  | c :: cs, node, hwf, hlive => by
    obtain ⟨b, mid, hcall, hwf', hwalk⟩ := node.call_spec hwf c (hlive c List.mem_cons_self)
    obtain ⟨node', ws, hrun, hwf'', hwalk'⟩ :=
      runNodeCalls_spec cs hwf' fun d hd => hlive d (List.mem_cons_of_mem c hd)
    refine ⟨node', if b then c.ptr :: ws else ws, ?_, hwf'', ?_⟩
    · simp only [runNodeCalls, hcall, hrun, Outcome.ok_bind]
    · rw [hwalk', hwalk]
      cases b <;> rfl

end Calls

/-! ### Where `add_value` splices -/

/-- The branches of `Trie::add_value`. -/
inductive AddValueBranch where
  | replaceLeaf
  | insertLeaf
  | promoteLeafToNode4
  | spliceLeaf
  deriving DecidableEq, Repr

/-- The branch `Trie::add_value` takes at the node the cursor stopped at, from
`cursor.eop()`, the cursor's `node_path_index` (which `eonp` compares with the
node's path length) and the node's kind. -/
def addValueBranch (eop : Bool) (nodePathIndex : Nat) (node : TrieNodeType) : AddValueBranch :=
  if eop then
    if node.isLeaf then .replaceLeaf else .insertLeaf
  else if nodePathIndex = node.path.length then .insertLeaf
  else if node.isLeaf then .promoteLeafToNode4 else .spliceLeaf

/-- The loop of `TrieCursor::walk` over a node's compressed path. From the
cursor's `index` into the path being walked, it counts in `node_path_index` the
bytes of the node's path that match, and stops at the first that differs (the
cursor's `PathDiverged`). It returns whether it diverged and the count. The
assertion before the loop keeps `index` in bounds; a missing byte reads as 0. -/
def consumeNodePath (pathBytes : List UInt8) : List UInt8 → Nat → Bool × Nat
  | [], _ => (false, 0)
  | b :: bs, index =>
    if pathBytes.getD index 0 = b then
      ((consumeNodePath pathBytes bs (index + 1)).1, (consumeNodePath pathBytes bs (index + 1)).2 + 1)
    else (true, 0)

/-- The cursor never counts past a node's path. -/
theorem consumeNodePath_le (pathBytes : List UInt8) :
    ∀ (nodePath : List UInt8) (index : Nat), (consumeNodePath pathBytes nodePath index).2 ≤ nodePath.length
  | [], _ => Nat.le_refl 0
  | b :: bs, index => by
    have ih := consumeNodePath_le pathBytes bs (index + 1)
    by_cases hb : pathBytes.getD index 0 = b
    · simp only [consumeNodePath, if_pos hb, List.length_cons]
      omega
    · simp only [consumeNodePath, if_neg hb]
      exact Nat.zero_le _

/-- `add_value` splices only with the cursor inside the node's path. -/
theorem lt_of_addValueBranch_eq_spliceLeaf {eop : Bool} {nodePathIndex : Nat} {node : TrieNodeType}
    (hle : nodePathIndex ≤ node.path.length) (h : addValueBranch eop nodePathIndex node = .spliceLeaf) :
    nodePathIndex < node.path.length := by
  by_contra hge
  have heonp : nodePathIndex = node.path.length := by omega
  unfold addValueBranch at h
  cases eop
  · rw [if_neg Bool.false_ne_true, if_pos heonp] at h
    cases h
  · rw [if_pos rfl] at h
    split_ifs at h

/-- The child maps of the trie's nodes. Each kind's `insert` and `replace` of
live pointers, on a well-formed node and over any run of calls, make `walk` the
partial map from a byte to the pointer most recently written at it, and keep
the node well formed (a `TrieNode48`'s index array consistent with its slots).
`insert` fails only on a full node whose bytes are distinct and miss the
pointer's, and `replace` writes exactly when the byte has a child.
`insert_leaf` keeps every child through its promotions. `splice_leaf` promotes
its `TrieNode4` only at the root, where `add_value` never splices when the root's
path is empty; elsewhere the `TrieNode4` holds exactly its two children. -/
theorem trieNode_walk_partial_map :
    (∀ (calls : List NodeCall) (node : TrieNodeType), node.WellFormed → (∀ c ∈ calls, c.ptr.IsLive) →
      ∃ node' written, runNodeCalls node calls = .ok (node', written) ∧ node'.WellFormed ∧
        ∀ c, node'.walk c = (written.reverse.find? fun p => decide (p.chr = c)).or (node.walk c)) ∧
    (∀ (node node' : TrieNodeType) (ptr : TriePtr), node.WellFormed → ptr.IsLive →
      node.insert ptr = .ok (false, node') →
        (∀ p ∈ node.ptrs, p.IsLive) ∧ (node.ptrs.map (·.chr)).Nodup ∧ node.walk ptr.chr = none ∧
          node' = node) ∧
    (∀ (node node' : TrieNodeType) (ptr : TriePtr) (b : Bool), node.WellFormed → ptr.IsLive →
      node.replace ptr = .ok (b, node') → (b = true ↔ node.walk ptr.chr ≠ none)) ∧
    (∀ (node : TrieNodeType) (leafPtr : TriePtr), node.WellFormed → leafPtr.IsLive →
      ∃ node', insertLeafPtr node leafPtr = .ok node' ∧
        node'.walk = Function.update node.walk leafPtr.chr (some leafPtr) ∧ node'.WellFormed) ∧
    (∀ (nodePtrsLen : Nat) (sharedPathPrefix : List UInt8) (leafPtr newCurNodePtr : TriePtr),
      nodePtrsLen ≠ 1 → leafPtr.IsLive → newCurNodePtr.IsLive → leafPtr.chr ≠ newCurNodePtr.chr →
      (spliceNewNode nodePtrsLen sharedPathPrefix leafPtr newCurNodePtr).walk =
        Function.update (Function.update (fun _ => none) leafPtr.chr (some leafPtr))
          newCurNodePtr.chr (some newCurNodePtr)) ∧
    (∀ (eop : Bool) (pathBytes : List UInt8) (index : Nat) (root : TrieNodeType), root.path = [] →
      addValueBranch eop (consumeNodePath pathBytes root.path index).2 root ≠ .spliceLeaf) := by
  refine ⟨?_, ?_, ?_, fun _ _ hwf hlive => insertLeafPtr_eq hwf hlive, ?_, ?_⟩
  · intro calls node hwf hlive
    obtain ⟨node', written, hrun, hwf', hwalk⟩ := runNodeCalls_spec calls hwf hlive
    exact ⟨node', written, hrun, hwf', fun c => by rw [hwalk, foldl_update_apply]⟩
  · intro node node' ptr hwf hlive hins
    obtain ⟨b, node'', h, -, -, hfalse⟩ := TrieNodeType.insert_spec hwf hlive
    rw [hins] at h
    obtain ⟨rfl, rfl⟩ := Prod.mk.inj (Outcome.ok.inj h)
    exact hfalse rfl
  · intro node node' ptr b hwf hlive hrep
    obtain ⟨b', node'', h, -, hb, -⟩ := TrieNodeType.replace_spec hwf hlive
    rw [hrep] at h
    obtain ⟨rfl, rfl⟩ := Prod.mk.inj (Outcome.ok.inj h)
    exact hb
  · intro nodePtrsLen sharedPathPrefix leafPtr newCurNodePtr hlen hleaf hcur hne
    rw [spliceNewNode, if_neg hlen, TrieNodeType.walk_node4]
    exact walk_spliceNode4 hleaf hcur hne
  -- the cursor counts no byte of an empty path, so it is at the end of the root's path
  · intro eop pathBytes index root hroot hsplice
    have hle := consumeNodePath_le pathBytes root.path index
    have hlt := lt_of_addValueBranch_eq_spliceLeaf hle hsplice
    rw [hroot] at hlt
    exact Nat.not_lt_zero _ hlt



end BlockstackCore
