import BlockstackCore.Library.FileLayout
import BlockstackCore.Chainstate.Stacks.Index.Bits

/-!
# Flushing the trie of a block to disk

`TrieRAM` (`chainstate/stacks/index/storage.rs`) buffers the trie of the block
being built as a vector of nodes with their hashes; the `ptr` of a child pointer
is an index into that vector. `dump` writes it to a file: the parent block hash,
the block's local identifier in little-endian, then the nodes breadth-first from
the root, each child pointer rewritten to the offset its child is written at.
`dump_traverse` makes three passes: the breadth-first walk, which adds up the
nodes' lengths into their end offsets; the rewrite, which hands the `k`-th child
met in breadth-first order the end offset of node `k`, where node `k + 1`
starts; and the write.

The walk reads each child out of the vector and queues a copy, and runs as long
as its frontier is not empty, so on pointers that loop it never ends. Here it
runs on a fuel, and a walk that has not emptied its frontier when the fuel is
spent stops as a panic. The file is a `SeekFile`, which `flush_to` opens empty
with `truncate(true)`. The read and write counters, which only the statistics
read, are left out, and `ptr` is a `Nat` (a `u64` in the code).

The result: a trie whose nodes under the root form a finite tree of encodable
nodes, each behind a pointer of its own id, is dumped when the fuel exceeds the
number of its nodes; and when the file is shorter than 4 GiB, so that each
offset fits the `u32` of a pointer, the file begins with the parent hash and the
identifier, has the returned length, and read from `root_ptr_disk` through the
rewritten pointers holds the same tree (`DiskImage`).
-/

namespace BlockstackCore

open ByteCodec FileLayout Outcome

def BLOCK_HEADER_HASH_ENCODED_SIZE : Nat := 32

namespace TriePtr

/-- A pointer `dump_traverse` follows: not `Empty`, and not a back-pointer into
the trie of another block. -/
def IsChild (p : TriePtr) : Prop := p.id ≠ TrieNodeID.Empty ∧ isBackptr p.id = false

instance (p : TriePtr) : Decidable p.IsChild := inferInstanceAs (Decidable (_ ∧ _))

/-- The pointer with its offset forgotten if it is a child's. -/
def forgetOffset (p : TriePtr) : TriePtr := if p.IsChild then { p with ptr := 0 } else p

end TriePtr

/-- The child pointers among a node's pointers, in slot order. -/
def childPtrs (ptrs : List TriePtr) : List TriePtr := ptrs.filter fun p => decide p.IsChild

namespace TriePtr

@[simp] theorem id_forgetOffset (p : TriePtr) : p.forgetOffset.id = p.id := by
  unfold forgetOffset
  split <;> rfl

@[simp] theorem chr_forgetOffset (p : TriePtr) : p.forgetOffset.chr = p.chr := by
  unfold forgetOffset
  split <;> rfl

/-- Whether a pointer is a child's depends on its id alone. -/
theorem isChild_congr {p q : TriePtr} (h : p.id = q.id) : p.IsChild ↔ q.IsChild := by
  simp only [IsChild, h]

@[simp] theorem forgetOffset_forgetOffset (p : TriePtr) : p.forgetOffset.forgetOffset = p.forgetOffset := by
  by_cases hp : p.IsChild
  · have hp' : p.forgetOffset.IsChild := (isChild_congr (id_forgetOffset p)).mpr hp
    rw [forgetOffset, if_pos hp', forgetOffset, if_pos hp]
  · have hp' : ¬ p.forgetOffset.IsChild := fun h => hp ((isChild_congr (id_forgetOffset p)).mp h)
    rw [forgetOffset, if_neg hp']

theorem forgetOffset_setPtr {p : TriePtr} (hp : p.IsChild) (off : UInt32) :
    ({ p with ptr := off } : TriePtr).forgetOffset = p.forgetOffset := by
  have hp' : ({ p with ptr := off } : TriePtr).IsChild := hp
  simp only [forgetOffset, if_pos hp, if_pos hp']

end TriePtr

@[simp] theorem childPtrs_nil : childPtrs [] = [] := rfl

theorem childPtrs_cons_of_isChild {p : TriePtr} (ps : List TriePtr) (hp : p.IsChild) :
    childPtrs (p :: ps) = p :: childPtrs ps := by
  simp [childPtrs, hp]

theorem childPtrs_cons_of_not {p : TriePtr} (ps : List TriePtr) (hp : ¬ p.IsChild) :
    childPtrs (p :: ps) = childPtrs ps := by
  simp [childPtrs, hp]

theorem childPtrs_map_forgetOffset (ps : List TriePtr) :
    childPtrs (ps.map TriePtr.forgetOffset) = (childPtrs ps).map TriePtr.forgetOffset := by
  induction ps with
  | nil => rfl
  | cons p ps ih =>
    have hiff := TriePtr.isChild_congr (TriePtr.id_forgetOffset p)
    by_cases hp : p.IsChild
    · rw [List.map_cons, childPtrs_cons_of_isChild _ (hiff.mpr hp), childPtrs_cons_of_isChild _ hp, ih,
        List.map_cons]
    · rw [List.map_cons, childPtrs_cons_of_not _ (mt hiff.mp hp), childPtrs_cons_of_not _ hp, ih]

/-- Pointers equal but for the offsets of children have children of the same ids. -/
theorem map_id_childPtrs {ps qs : List TriePtr}
    (h : qs.map TriePtr.forgetOffset = ps.map TriePtr.forgetOffset) :
    (childPtrs qs).map TriePtr.id = (childPtrs ps).map TriePtr.id := by
  have h' := congrArg (fun l => (childPtrs l).map TriePtr.id) h
  simpa [childPtrs_map_forgetOffset, List.map_map, Function.comp_def] using h'

/-- Two index arrays alike whose slots have the same ids and bytes are consistent
together. -/
theorem TrieNode48.Consistent.of_slots {a b : TrieNode48} (hb : b.Consistent)
    (hidx : a.indexes = b.indexes)
    (hslot : ∀ i, (a.slot i).id = (b.slot i).id ∧ (a.slot i).chr = (b.slot i).chr) :
    a.Consistent := by
  have hindex : a.index = b.index := funext fun c => by simp only [TrieNode48.index, hidx]
  constructor
  · intro c h0
    rw [hindex] at h0
    obtain ⟨hlive, hchr⟩ := hb.index_slot c h0
    simp only [TrieNode48.slotOf, TriePtr.IsLive, hindex, (hslot _).1, (hslot _).2] at hlive hchr ⊢
    exact ⟨hlive, hchr⟩
  · intro i hi hlive
    simp only [TriePtr.IsLive, (hslot i).1] at hlive
    rw [hindex, (hslot i).2]
    exact hb.slot_index i hi hlive

namespace TrieNodeType

/-- The node with other pointers of the same number: what step 2 of
`dump_traverse` writes through `ptrs_mut`, which it calls on nodes that are not
leaves. -/
def setPtrs : (node : TrieNodeType) → (ptrs : List TriePtr) → ptrs.length = node.ptrs.length →
    TrieNodeType
  | node4 data, ptrs, h => node4 { data with ptrs, length_ptrs := h.trans data.length_ptrs }
  | node16 data, ptrs, h => node16 { data with ptrs, length_ptrs := h.trans data.length_ptrs }
  | node48 data, ptrs, h => node48 { data with ptrs, length_ptrs := h.trans data.length_ptrs }
  | node256 data, ptrs, h => node256 { data with ptrs, length_ptrs := h.trans data.length_ptrs }
  | leaf data, _, _ => leaf data

/-- The node with the offsets of its children forgotten: what a dump keeps. -/
def forgetOffsets (node : TrieNodeType) : TrieNodeType :=
  node.setPtrs (node.ptrs.map TriePtr.forgetOffset) (by simp)

variable {node : TrieNodeType} {ptrs : List TriePtr}

@[simp] theorem ptrs_setPtrs (h : ptrs.length = node.ptrs.length) : (node.setPtrs ptrs h).ptrs = ptrs := by
  cases node with
  | leaf data =>
    have h0 : ptrs.length = 0 := h
    exact (List.length_eq_zero_iff.mp h0).symm
  | _ => rfl

@[simp] theorem id_setPtrs (h : ptrs.length = node.ptrs.length) : (node.setPtrs ptrs h).id = node.id := by
  cases node <;> rfl

theorem setPtrs_setPtrs {qs : List TriePtr} (h : ptrs.length = node.ptrs.length)
    (h' : qs.length = (node.setPtrs ptrs h).ptrs.length) (h'' : qs.length = node.ptrs.length) :
    (node.setPtrs ptrs h).setPtrs qs h' = node.setPtrs qs h'' := by
  cases node <;> rfl

theorem setPtrs_congr {qs : List TriePtr} (hpq : ptrs = qs) (h : ptrs.length = node.ptrs.length)
    (h' : qs.length = node.ptrs.length) : node.setPtrs ptrs h = node.setPtrs qs h' := by
  subst hpq
  rfl

@[simp] theorem ptrs_forgetOffsets : node.forgetOffsets.ptrs = node.ptrs.map TriePtr.forgetOffset :=
  ptrs_setPtrs _

@[simp] theorem id_forgetOffsets : node.forgetOffsets.id = node.id := id_setPtrs _

/-- Pointers equal to a node's but for the offsets of children keep what a dump
forgets. -/
theorem forgetOffsets_setPtrs (h : ptrs.length = node.ptrs.length)
    (hsame : ptrs.map TriePtr.forgetOffset = node.ptrs.map TriePtr.forgetOffset) :
    (node.setPtrs ptrs h).forgetOffsets = node.forgetOffsets := by
  unfold forgetOffsets
  rw [setPtrs_setPtrs h _ (by simp [h])]
  exact setPtrs_congr (by rw [ptrs_setPtrs, hsame]) _ _

/-- Each pointer takes ten bytes, whatever it holds. -/
theorem length_writeBytes_setPtrs (h : ptrs.length = node.ptrs.length) :
    (node.setPtrs ptrs h).writeBytes.length = node.writeBytes.length := by
  cases node with
  | node48 data =>
    have h' : ptrs.length = data.ptrs.length := h
    simp [setPtrs, writeBytes, TrieNode48.writeBytes, length_writePtrsToBytes, h']
  | leaf data => rfl
  | _ data =>
    have h' : ptrs.length = data.ptrs.length := h
    simp [setPtrs, writeBytes, writeNodeBytes, length_writePtrsToBytes, h']

/-- Pointers equal but for the offsets of children keep a node encodable: its
path is the same, and an index array sees the same ids and bytes in its slots. -/
theorem encodable_setPtrs_iff (h : ptrs.length = node.ptrs.length)
    (hsame : ptrs.map TriePtr.forgetOffset = node.ptrs.map TriePtr.forgetOffset) :
    (node.setPtrs ptrs h).Encodable ↔ node.Encodable := by
  cases node with
  | node48 data =>
    have hslot : ∀ i, (ptrs.getD i TriePtr.default).id = (data.ptrs.getD i TriePtr.default).id ∧
        (ptrs.getD i TriePtr.default).chr = (data.ptrs.getD i TriePtr.default).chr := fun i => by
      have hi := congrArg (fun l => l.getD i TriePtr.default.forgetOffset) hsame
      simp only [List.getD_map] at hi
      exact ⟨by simpa [TrieNodeType.ptrs] using congrArg TriePtr.id hi,
        by simpa [TrieNodeType.ptrs] using congrArg TriePtr.chr hi⟩
    constructor
    · intro he
      refine ⟨he.path_le, fun d hd => ?_⟩
      cases hd
      exact (he.consistent _ rfl).of_slots rfl fun i => ⟨(hslot i).1.symm, (hslot i).2.symm⟩
    · intro he
      refine ⟨he.path_le, fun d hd => ?_⟩
      cases hd
      exact (he.consistent _ rfl).of_slots rfl hslot
  | leaf data => exact Iff.rfl
  | _ data =>
    exact ⟨fun he => ⟨he.path_le, fun _ hd => nomatch hd⟩, fun he => ⟨he.path_le, fun _ hd => nomatch hd⟩⟩

theorem encodable_forgetOffsets_iff : node.forgetOffsets.Encodable ↔ node.Encodable :=
  encodable_setPtrs_iff _ (by simp [List.map_map, Function.comp_def])

end TrieNodeType

/-- `node'` is `node` with its child pointers, in slot order, pointed at `offs`:
equal to it but for those offsets. -/
structure Repointed (node node' : TrieNodeType) (offs : List UInt32) : Prop where
  forgetOffsets_eq : node'.forgetOffsets = node.forgetOffsets
  ptrs_children : (childPtrs node'.ptrs).map TriePtr.ptr = offs

namespace Repointed

variable {node node' : TrieNodeType} {offs : List UInt32}

theorem id_eq (h : Repointed node node' offs) : node'.id = node.id := by
  rw [← TrieNodeType.id_forgetOffsets, h.forgetOffsets_eq, TrieNodeType.id_forgetOffsets]

theorem encodable (h : Repointed node node' offs) (he : node.Encodable) : node'.Encodable := by
  rw [← TrieNodeType.encodable_forgetOffsets_iff, h.forgetOffsets_eq]
  exact TrieNodeType.encodable_forgetOffsets_iff.mpr he

theorem length_writeNodetypeBytes (h : Repointed node node' offs) (hash : TrieHash) :
    (writeNodetypeBytes node' hash).length = (writeNodetypeBytes node hash).length := by
  have h' : node'.forgetOffsets.writeBytes.length = node'.writeBytes.length :=
    TrieNodeType.length_writeBytes_setPtrs _
  have h'' : node.forgetOffsets.writeBytes.length = node.writeBytes.length :=
    TrieNodeType.length_writeBytes_setPtrs _
  rw [h.forgetOffsets_eq, h''] at h'
  simp only [writeNodetypeBytes, List.length_append, h']

theorem map_id_childPtrs (h : Repointed node node' offs) :
    (childPtrs node'.ptrs).map TriePtr.id = (childPtrs node.ptrs).map TriePtr.id := by
  apply BlockstackCore.map_id_childPtrs
  simpa using congrArg TrieNodeType.ptrs h.forgetOffsets_eq

theorem id_getElem_childPtrs (h : Repointed node node' offs) {m : Nat} (hm : m < (childPtrs node.ptrs).length)
    (hm' : m < (childPtrs node'.ptrs).length) : (childPtrs node'.ptrs)[m].id = (childPtrs node.ptrs)[m].id := by
  have h := congrArg (fun l => l[m]?) h.map_id_childPtrs
  simpa [List.getElem?_map, hm, hm'] using h

end Repointed

/-- `TrieRAM`: the nodes of the block's trie with their hashes, the block, its
local identifier and its parent. -/
structure TrieRAM where
  data : List (TrieNodeType × TrieHash)
  blockHeader : BlockHeaderHash
  identifier : UInt32
  parent : BlockHeaderHash

/-- `TrieFileStorage::root_ptr_disk`: the root follows the parent hash and the
identifier. -/
def rootPtrDisk : UInt32 := UInt32.ofNat BLOCK_HEADER_HASH_ENCODED_SIZE + 4

theorem toNat_rootPtrDisk : rootPtrDisk.toNat = BLOCK_HEADER_HASH_ENCODED_SIZE + 4 := by decide

/-- `write_trie_file`: the parent block hash at 0, the identifier after it, then
each node with its hash, followed by a seek to its end offset. -/
def writeTrieFile (f : SeekFile) (nodeData : List (TrieNodeType × TrieHash)) (offsets : List UInt32)
    (identifier : UInt32) (parentHash : BlockHeaderHash) : Outcome IndexError SeekFile :=
  if nodeData.length = offsets.length then
    let f := (f.seek 0).writeAll parentHash.bytes
    let f := (f.seek BLOCK_HEADER_HASH_ENCODED_SIZE).writeAll (digits 4 identifier.toNat)
    ok ((nodeData.zip offsets).foldl
      (fun f entry => (f.writeAll (writeNodetypeBytes entry.1.1 entry.1.2)).seek entry.2.toNat) f)
  else panic

/-- The inner loop of step 2 over the pointers of one node: the child pointers,
in slot order, take the offsets from `offsets[i]` on. An index past the end of
`offsets` panics. -/
def rewritePtrs (offsets : List UInt32) : List TriePtr → Nat → Outcome IndexError (List TriePtr × Nat)
  | [], i => ok ([], i)
  | p :: ps, i =>
    if p.IsChild then do
      let off ← expect offsets[i]?
      let (ps', i') ← rewritePtrs offsets ps (i + 1)
      ok ({ p with ptr := off } :: ps', i')
    else do
      let (ps', i') ← rewritePtrs offsets ps i
      ok (p :: ps', i')

theorem length_rewritePtrs {offsets : List UInt32} :
    ∀ {ps ps' : List TriePtr} {i i' : Nat}, rewritePtrs offsets ps i = ok (ps', i') →
      ps'.length = ps.length
  | [], ps', i, i', h => by
    cases h
    rfl
  | p :: ps, ps', i, i', h => by
    unfold rewritePtrs at h
    split at h
    · obtain ⟨off, -, h⟩ := bind_eq_ok.mp h
      obtain ⟨⟨qs, j⟩, hrest, h⟩ := bind_eq_ok.mp h
      cases h
      simp [length_rewritePtrs hrest]
    · obtain ⟨⟨qs, j⟩, hrest, h⟩ := bind_eq_ok.mp h
      cases h
      simp [length_rewritePtrs hrest]

/-- Step 2 on one node, `i` counting the children met before it. A leaf has no
pointers to rewrite. -/
def rewriteNode (offsets : List UInt32) (node : TrieNodeType) (i : Nat) :
    Outcome IndexError (TrieNodeType × Nat) :=
  if node.isLeaf then ok (node, i)
  else
    match h : rewritePtrs offsets node.ptrs i with
    | .ok (ptrs, i') => ok (node.setPtrs ptrs (length_rewritePtrs h), i')
    | .err e => err e
    | .panic => .panic

/-- Step 2 of `dump_traverse`: the nodes in breadth-first order. -/
def rewriteNodes (offsets : List UInt32) :
    List (TrieNodeType × TrieHash) → Nat → Outcome IndexError (List (TrieNodeType × TrieHash))
  | [], _ => ok []
  | (node, hash) :: nodeData, i => do
    let (node, i) ← rewriteNode offsets node i
    let nodeData ← rewriteNodes offsets nodeData i
    ok ((node, hash) :: nodeData)

/-- With offsets enough for its children, the loop over a node's pointers points
the children, in slot order, at the offsets from `offsets[i]` on, and leaves the
other pointers as they are. -/
theorem rewritePtrs_eq {offsets : List UInt32} : ∀ (ps : List TriePtr) (i : Nat),
    i + (childPtrs ps).length ≤ offsets.length →
    ∃ ps', rewritePtrs offsets ps i = ok (ps', i + (childPtrs ps).length) ∧
      ps'.map TriePtr.forgetOffset = ps.map TriePtr.forgetOffset ∧
      (childPtrs ps').map TriePtr.ptr = (offsets.drop i).take (childPtrs ps).length
  | [], i, _ => ⟨[], rfl, rfl, by simp⟩
  | p :: ps, i, h => by
    by_cases hp : p.IsChild
    · rw [childPtrs_cons_of_isChild _ hp, List.length_cons] at h ⊢
      obtain ⟨ps', hrw, hsame, hoffs⟩ := @rewritePtrs_eq offsets ps (i + 1) (by omega)
      have hi : i < offsets.length := by omega
      have hp' : ({ p with ptr := offsets[i] } : TriePtr).IsChild := hp
      refine ⟨{ p with ptr := offsets[i] } :: ps', ?_, ?_, ?_⟩
      · rw [rewritePtrs, if_pos hp, List.getElem?_eq_getElem hi, expect_some, ok_bind, hrw, ok_bind,
          Nat.add_assoc, Nat.add_comm 1]
      · rw [List.map_cons, List.map_cons, TriePtr.forgetOffset_setPtr hp, hsame]
      · rw [childPtrs_cons_of_isChild _ hp', List.map_cons, hoffs, List.drop_eq_getElem_cons hi,
          List.take_succ_cons]
    · rw [childPtrs_cons_of_not _ hp] at h ⊢
      obtain ⟨ps', hrw, hsame, hoffs⟩ := @rewritePtrs_eq offsets ps i h
      refine ⟨p :: ps', ?_, ?_, ?_⟩
      · rw [rewritePtrs, if_neg hp, hrw, ok_bind]
      · rw [List.map_cons, List.map_cons, hsame]
      · rw [childPtrs_cons_of_not _ hp, hoffs]

/-- Step 2 on one node: its children point at the next offsets in slot order. -/
theorem rewriteNode_eq {offsets : List UInt32} {node : TrieNodeType} {i : Nat}
    (h : i + (childPtrs node.ptrs).length ≤ offsets.length) :
    ∃ node', rewriteNode offsets node i = ok (node', i + (childPtrs node.ptrs).length) ∧
      Repointed node node' ((offsets.drop i).take (childPtrs node.ptrs).length) := by
  by_cases hleaf : node.isLeaf
  -- a leaf has no pointers, and the rewrite passes it over
  · have hptrs : node.ptrs = [] := by
      cases node <;> simp_all [TrieNodeType.isLeaf, TrieNodeType.ptrs]
    refine ⟨node, ?_, ⟨rfl, by simp [hptrs]⟩⟩
    rw [rewriteNode, if_pos hleaf, hptrs]
    rfl
  · obtain ⟨ps', hrw, hsame, hoffs⟩ := rewritePtrs_eq node.ptrs i h
    refine ⟨node.setPtrs ps' (length_rewritePtrs hrw), ?_,
      ⟨TrieNodeType.forgetOffsets_setPtrs _ hsame, by rw [TrieNodeType.ptrs_setPtrs, hoffs]⟩⟩
    rw [rewriteNode, if_neg hleaf]
    split
    · next heq =>
      rw [hrw] at heq
      cases heq
      rfl
    · next heq =>
      rw [hrw] at heq
      cases heq
    · next heq =>
      rw [hrw] at heq
      cases heq

/-- With offsets enough for all children, step 2 points the children of node `j`
at the offsets that follow those of the children of the nodes before it. -/
theorem rewriteNodes_eq {offsets : List UInt32} :
    ∀ (nodeData : List (TrieNodeType × TrieHash)) (i : Nat),
    i + (nodeData.map fun x => (childPtrs x.1.ptrs).length).sum ≤ offsets.length →
    ∃ nodeData', rewriteNodes offsets nodeData i = ok nodeData' ∧
      nodeData'.length = nodeData.length ∧
      ∀ j (hj : j < nodeData.length) (hj' : j < nodeData'.length), nodeData'[j].2 = nodeData[j].2 ∧
        Repointed nodeData[j].1 nodeData'[j].1
          ((offsets.drop (i + ((nodeData.map fun x => (childPtrs x.1.ptrs).length).take j).sum)).take
            (childPtrs nodeData[j].1.ptrs).length)
  | [], i, _ => ⟨[], rfl, rfl, fun j hj => absurd hj (by simp)⟩
  | (node, hash) :: nodeData, i, h => by
    simp only [List.map_cons, List.sum_cons] at h
    obtain ⟨node', hnode, hrep⟩ :=
      rewriteNode_eq (by omega : i + (childPtrs node.ptrs).length ≤ offsets.length)
    obtain ⟨rest', hrest, hlen, hrel⟩ :=
      @rewriteNodes_eq offsets nodeData (i + (childPtrs node.ptrs).length) (by omega)
    refine ⟨(node', hash) :: rest', ?_, by simp [hlen], ?_⟩
    · rw [rewriteNodes, hnode, ok_bind]
      simp only [hrest, ok_bind]
    · intro j hj hj'
      cases j with
      | zero => exact ⟨rfl, by simpa using hrep⟩
      | succ j =>
        have hj'' := hrel j (by simpa using hj) (by simpa using hj')
        simp only [List.getElem_cons_succ, List.map_cons, List.take_succ_cons, List.sum_cons]
        rw [← Nat.add_assoc]
        exact hj''

/-- The bytes a node takes in the file, with its hash. -/
def nodeLength (x : TrieNodeType × TrieHash) : Nat := (writeNodetypeBytes x.1 x.2).length

namespace TrieRAM

/-- `TrieRAM::read_nodetype`: the node at the pointer's index, whatever its id. -/
def readNodetype (ram : TrieRAM) (ptr : TriePtr) : Outcome IndexError (TrieNodeType × TrieHash) :=
  ofOption .notFoundError ram.data[ptr.ptr.toNat]?

/-- The children the walk queues for a node: each child pointer read, in slot
order. -/
def readChildren (ram : TrieRAM) : List TriePtr → Outcome IndexError (List (TrieNodeType × TrieHash))
  | [] => ok []
  | p :: ps =>
    if p.IsChild then do
      let child ← ram.readNodetype p
      let children ← ram.readChildren ps
      ok (child :: children)
    else ram.readChildren ps

/-- Step 1 of `dump_traverse`, the breadth-first walk: take the front of the
frontier, add its length to `ptr`, queue its children, and record it with its
end offset `ptr as u32`. -/
def dumpTraverseLoop (ram : TrieRAM) :
    Nat → List (TrieNodeType × TrieHash) → List (TrieNodeType × TrieHash) → List UInt32 → Nat →
      Outcome IndexError (List (TrieNodeType × TrieHash) × List UInt32 × Nat)
  | 0, _, _, _, _ => panic
  | _ + 1, [], nodeData, offsets, ptr => ok (nodeData, offsets, ptr)
  | fuel + 1, (node, nodeHash) :: frontier, nodeData, offsets, ptr => do
    let numWritten ← (getNodeByteLen node).mapErr Empty.elim
    let ptr := ptr + numWritten
    let children ← (if node.isLeaf then ok [] else ram.readChildren node.ptrs)
    ram.dumpTraverseLoop fuel (frontier ++ children) (nodeData ++ [(node, nodeHash)])
      (offsets ++ [UInt32.ofNat ptr]) ptr

/-- `dump_traverse`: the walk from the root after the parent hash and the
identifier, the rewrite, and the write. It returns the end of the last node. -/
def dumpTraverse (ram : TrieRAM) (fuel : Nat) (f : SeekFile) (root : TrieNodeType) (hash : TrieHash) :
    Outcome IndexError (Nat × SeekFile) := do
  let (nodeData, offsets, ptr) ←
    ram.dumpTraverseLoop fuel [(root, hash)] [] [] (BLOCK_HEADER_HASH_ENCODED_SIZE + 4)
  if offsets.length = nodeData.length then do
    let nodeData ← rewriteNodes offsets nodeData 0
    let f ← writeTrieFile f nodeData offsets ram.identifier ram.parent
    ok (ptr, f)
  else panic

/-- `TrieRAM::dump`: the trie of block `bhh`, from its root `Node256` at index 0. -/
def dump (ram : TrieRAM) (fuel : Nat) (f : SeekFile) (bhh : BlockHeaderHash) :
    Outcome IndexError (Nat × SeekFile) :=
  if ram.blockHeader = bhh then do
    let (root, hash) ← ram.readNodetype ⟨TrieNodeID.Node256, 0, 0, 0⟩
    ram.dumpTraverse fuel f root hash
  else err .notFoundError

/-- The nodes of `ram` under `ptr` form a finite tree of `size` nodes through
their child pointers; each node is encodable and has the id of the pointer to
it. -/
inductive Subtree (ram : TrieRAM) : TriePtr → Nat → Prop
  | node {ptr : TriePtr} {node : TrieNodeType} {hash : TrieHash} (sizes : List Nat) :
      ram.readNodetype ptr = ok (node, hash) → ptr.id = node.id → node.Encodable →
      (childPtrs node.ptrs).length = sizes.length →
      (∀ c ∈ (childPtrs node.ptrs).zip sizes, Subtree ram c.1 c.2) →
      Subtree ram ptr (sizes.sum + 1)

/-- Reading `file` from `q` finds what `ram` holds under `p`: a node with the
same hash, equal to it but for the offsets of its children, and under each child
pointer the image of the child. -/
inductive DiskImage (ram : TrieRAM) (file : Bytes) : TriePtr → TriePtr → Prop
  | node {p q : TriePtr} {node node' : TrieNodeType} {hash : TrieHash} :
      ram.readNodetype p = ok (node, hash) → BlockstackCore.readNodetype file q = ok (node', hash) →
      node'.forgetOffsets = node.forgetOffsets →
      (∀ c ∈ (childPtrs node.ptrs).zip (childPtrs node'.ptrs), DiskImage ram file c.1 c.2) →
      DiskImage ram file p q

/-! ### The walk -/

section Walk

variable {ram : TrieRAM}

/-- `readChildren` reads the child pointers and nothing else. -/
theorem readChildren_eq_ok_iff : ∀ {ptrs : List TriePtr} {cs : List (TrieNodeType × TrieHash)},
    ram.readChildren ptrs = ok cs ↔
      List.Forall₂ (fun p x => ram.readNodetype p = ok x) (childPtrs ptrs) cs
  | [], cs => by
    rw [childPtrs_nil, List.forall₂_nil_left_iff, readChildren]
    exact ⟨fun h => by cases h; rfl, fun h => h ▸ rfl⟩
  | p :: ps, cs => by
    by_cases hp : p.IsChild
    · rw [readChildren, if_pos hp, childPtrs_cons_of_isChild _ hp, List.forall₂_cons_left_iff]
      constructor
      · intro h
        obtain ⟨x, hx, h⟩ := bind_eq_ok.mp h
        obtain ⟨xs, hxs, h⟩ := bind_eq_ok.mp h
        cases h
        exact ⟨x, xs, hx, readChildren_eq_ok_iff.mp hxs, rfl⟩
      · rintro ⟨x, xs, hx, hxs, rfl⟩
        rw [hx, ok_bind, readChildren_eq_ok_iff.mpr hxs, ok_bind]
    · rw [readChildren, if_neg hp, childPtrs_cons_of_not _ hp]
      exact readChildren_eq_ok_iff

/-- A leaf has no pointers, so the walk's test for leaves changes nothing. -/
theorem readChildren_of_isLeaf (node : TrieNodeType) :
    (if node.isLeaf then ok [] else ram.readChildren node.ptrs) = ram.readChildren node.ptrs := by
  cases node <;> rfl

theorem Subtree.readNodetype {p : TriePtr} {s : Nat} (h : ram.Subtree p s) :
    ∃ x, ram.readNodetype p = ok x := by
  cases h with
  | node _ hread _ _ _ _ => exact ⟨_, hread⟩

/-- Subtrees are read as their roots. -/
theorem roots_of_subtrees : ∀ {ps : List TriePtr} {sizes : List Nat},
    List.Forall₂ ram.Subtree ps sizes →
    ∃ cs, List.Forall₂ (fun p x => ram.readNodetype p = ok x) ps cs ∧
      List.Forall₂ (fun x s => ∃ p, ram.readNodetype p = ok x ∧ ram.Subtree p s) cs sizes
  | _, _, .nil => ⟨[], .nil, .nil⟩
  | _, _, .cons hp hrest => by
    obtain ⟨x, hx⟩ := hp.readNodetype
    obtain ⟨cs, hread, hcs⟩ := roots_of_subtrees hrest
    exact ⟨x :: cs, .cons hx hread, .cons ⟨_, hx, hp⟩ hcs⟩

/-- The children of a node whose children are subtrees are read, each the root
of its subtree. -/
theorem readChildren_of_subtrees {ptrs : List TriePtr} {sizes : List Nat}
    (hlen : (childPtrs ptrs).length = sizes.length)
    (hsub : ∀ c ∈ (childPtrs ptrs).zip sizes, ram.Subtree c.1 c.2) :
    ∃ cs, ram.readChildren ptrs = ok cs ∧
      List.Forall₂ (fun x s => ∃ p, ram.readNodetype p = ok x ∧ ram.Subtree p s) cs sizes := by
  have hall : List.Forall₂ ram.Subtree (childPtrs ptrs) sizes :=
    List.forall₂_iff_zip.mpr ⟨hlen, fun h => hsub _ h⟩
  obtain ⟨cs, hread, hcs⟩ := roots_of_subtrees hall
  exact ⟨cs, readChildren_eq_ok_iff.mpr hread, hcs⟩

/-- The walk after recording `nodeData` with `frontier` left: the children of
each recorded node are read, the recorded nodes and the frontier are the root
followed by those children in order, and the offsets and `ptr` are the running
ends of the recorded nodes after the header. -/
structure Walked (ram : TrieRAM) (root : TrieNodeType × TrieHash)
    (css : List (List (TrieNodeType × TrieHash))) (frontier nodeData : List (TrieNodeType × TrieHash))
    (offsets : List UInt32) (ptr : Nat) : Prop where
  children : List.Forall₂ (fun x cs => ram.readChildren x.1.ptrs = ok cs) nodeData css
  order : nodeData ++ frontier = root :: css.flatten
  offsets_eq :
    offsets = (ends (BLOCK_HEADER_HASH_ENCODED_SIZE + 4) (nodeData.map nodeLength)).map UInt32.ofNat
  ptr_eq : ptr = BLOCK_HEADER_HASH_ENCODED_SIZE + 4 + (nodeData.map nodeLength).sum

theorem Walked.start (root : TrieNodeType × TrieHash) :
    ram.Walked root [] [root] [] [] (BLOCK_HEADER_HASH_ENCODED_SIZE + 4) :=
  ⟨.nil, rfl, rfl, rfl⟩

/-- One turn of the walk keeps its invariant: the front node is recorded with its
end, and its children join the back of the frontier. -/
theorem Walked.step {root x : TrieNodeType × TrieHash} {css : List (List (TrieNodeType × TrieHash))}
    {frontier nodeData cs : List (TrieNodeType × TrieHash)} {offsets : List UInt32} {ptr : Nat}
    (hw : ram.Walked root css (x :: frontier) nodeData offsets ptr)
    (hcs : ram.readChildren x.1.ptrs = ok cs) :
    ram.Walked root (css ++ [cs]) (frontier ++ cs) (nodeData ++ [x])
      (offsets ++ [UInt32.ofNat (ptr + nodeLength x)]) (ptr + nodeLength x) where
  children := List.rel_append hw.children (.cons hcs .nil)
  order := by
    rw [List.flatten_append, List.flatten_singleton, ← List.cons_append, ← hw.order]
    simp
  offsets_eq := by
    rw [hw.offsets_eq, List.map_append, ends_append, hw.ptr_eq]
    simp [ends]
  ptr_eq := by
    rw [hw.ptr_eq]
    simp [Nat.add_assoc]

theorem dumpTraverseLoop_succ_cons {x : TrieNodeType × TrieHash} {cs : List (TrieNodeType × TrieHash)}
    (henc : x.1.Encodable) (hcs : ram.readChildren x.1.ptrs = ok cs) (fuel : Nat)
    (frontier nodeData : List (TrieNodeType × TrieHash)) (offsets : List UInt32) (ptr : Nat) :
    ram.dumpTraverseLoop (fuel + 1) (x :: frontier) nodeData offsets ptr =
      ram.dumpTraverseLoop fuel (frontier ++ cs) (nodeData ++ [x])
        (offsets ++ [UInt32.ofNat (ptr + nodeLength x)]) (ptr + nodeLength x) := by
  obtain ⟨node, hash⟩ := x
  simp only at henc hcs ⊢
  rw [dumpTraverseLoop, getNodeByteLen_eq hash henc.path_le, mapErr_ok, ok_bind, readChildren_of_isLeaf,
    hcs, ok_bind]
  rfl

/-- The walk from a frontier of subtrees, on a fuel above the number of their
nodes, ends with all of them recorded. The induction is on the fuel; each turn
trades the front subtree for its children, one node fewer. -/
theorem dumpTraverseLoop_run {root : TrieNodeType × TrieHash} :
    ∀ (fuel : Nat) {css : List (List (TrieNodeType × TrieHash))}
      {frontier nodeData : List (TrieNodeType × TrieHash)} {offsets : List UInt32} {ptr : Nat}
      {sizes : List Nat},
    ram.Walked root css frontier nodeData offsets ptr →
    List.Forall₂ (fun x s => ∃ p, ram.readNodetype p = ok x ∧ ram.Subtree p s) frontier sizes →
    sizes.sum < fuel →
    ∃ css' nodeData' offsets' ptr',
      ram.dumpTraverseLoop fuel frontier nodeData offsets ptr = ok (nodeData', offsets', ptr') ∧
      ram.Walked root css' [] nodeData' offsets' ptr' ∧ nodeData'.length = nodeData.length + sizes.sum
  | 0, _, _, _, _, _, _, _, _, hfuel => absurd hfuel (Nat.not_lt_zero _)
  | _ + 1, css, [], nodeData, offsets, ptr, _, hw, .nil, _ => ⟨css, nodeData, offsets, ptr, rfl, hw, rfl⟩
  | fuel + 1, _, _ :: _, _, _, _, _ :: rest, hw, .cons ⟨_, hread, hsub⟩ hrest, hfuel => by
    cases hsub with
    | node sizes' hread' _ henc hlen hchildren =>
      rw [hread] at hread'
      cases hread'
      obtain ⟨cs, hcs, hcsizes⟩ := readChildren_of_subtrees hlen hchildren
      rw [dumpTraverseLoop_succ_cons henc hcs]
      have hfuel' : (rest ++ sizes').sum < fuel := by
        simp only [List.sum_cons, List.sum_append] at hfuel ⊢
        omega
      obtain ⟨css', nodeData', offsets', ptr', hrun, hw', hcount⟩ :=
        dumpTraverseLoop_run fuel (hw.step hcs) (List.rel_append hrest hcsizes) hfuel'
      refine ⟨css', nodeData', offsets', ptr', hrun, hw', ?_⟩
      simp only [List.length_append, List.length_singleton, List.sum_append, List.sum_cons] at hcount ⊢
      omega

theorem mem_data_of_readNodetype {p : TriePtr} {x : TrieNodeType × TrieHash}
    (h : ram.readNodetype p = ok x) : x ∈ ram.data :=
  List.mem_of_getElem? (ofOption_eq_ok.mp h)

theorem mem_data_of_readChildren {ptrs : List TriePtr} {cs : List (TrieNodeType × TrieHash)}
    (h : ram.readChildren ptrs = ok cs) : ∀ x ∈ cs, x ∈ ram.data := by
  have hall := readChildren_eq_ok_iff.mp h
  intro x hx
  obtain ⟨m, hm, rfl⟩ := List.getElem_of_mem hx
  exact mem_data_of_readNodetype (hall.get (hall.length_eq ▸ hm) hm)

/-- The walk records nodes of `ram` only: the root, and children it read. -/
theorem Walked.mem_data {root : TrieNodeType × TrieHash} {css : List (List (TrieNodeType × TrieHash))}
    {frontier nodeData : List (TrieNodeType × TrieHash)} {offsets : List UInt32} {ptr : Nat}
    (hw : ram.Walked root css frontier nodeData offsets ptr) (hroot : root ∈ ram.data) :
    ∀ x ∈ nodeData, x ∈ ram.data := by
  intro x hx
  have hx' : x ∈ root :: css.flatten := hw.order ▸ List.mem_append_left frontier hx
  rcases List.mem_cons.mp hx' with rfl | hx'
  · exact hroot
  · obtain ⟨cs, hcs, hxcs⟩ := List.mem_flatten.mp hx'
    obtain ⟨k, hk, rfl⟩ := List.getElem_of_mem hcs
    exact mem_data_of_readChildren (hw.children.get (hw.children.length_eq ▸ hk) hk) x hxcs

end Walk

/-! ### The file -/

section File

variable {ram : TrieRAM} {root : TrieNodeType × TrieHash} {css : List (List (TrieNodeType × TrieHash))}
  {frontier nodeData : List (TrieNodeType × TrieHash)} {offsets : List UInt32} {ptr : Nat}

/-- Under 4 GiB the offsets of the walk are the ends of its nodes. -/
theorem Walked.map_toNat_offsets (hw : ram.Walked root css frontier nodeData offsets ptr)
    (hfit : ptr < 2 ^ 32) :
    offsets.map UInt32.toNat = ends (BLOCK_HEADER_HASH_ENCODED_SIZE + 4) (nodeData.map nodeLength) := by
  rw [hw.offsets_eq, List.map_map]
  conv_rhs => rw [← List.map_id (ends _ _)]
  apply List.map_congr_left
  intro a ha
  rw [Function.comp_apply, id]
  have hle := le_of_mem_ends ha
  have hsize : UInt32.size = 2 ^ 32 := rfl
  rw [hw.ptr_eq] at hfit
  exact UInt32.toNat_ofNat_of_lt' (by omega)

theorem Walked.toNat_getElem_offsets (hw : ram.Walked root css frontier nodeData offsets ptr)
    (hfit : ptr < 2 ^ 32) {g : Nat} (hg : g < offsets.length) :
    offsets[g].toNat = BLOCK_HEADER_HASH_ENCODED_SIZE + 4 + ((nodeData.map nodeLength).take (g + 1)).sum := by
  have hends : g < (ends (BLOCK_HEADER_HASH_ENCODED_SIZE + 4) (nodeData.map nodeLength)).length := by
    simpa [hw.offsets_eq] using hg
  have h := congrArg (fun l => l[g]?) (hw.map_toNat_offsets hfit)
  simp only [List.getElem?_map, List.getElem?_eq_getElem hg, Option.map_some,
    List.getElem?_eq_getElem hends, getElem_ends] at h
  exact Option.some.inj h

/-- The header `write_trie_file` writes into an empty file: the parent hash,
then the identifier, with the cursor after them. -/
theorem writeHeader_empty (identifier : UInt32) (parentHash : BlockHeaderHash) :
    ((SeekFile.empty.seek 0).writeAll parentHash.bytes |>.seek BLOCK_HEADER_HASH_ENCODED_SIZE
      |>.writeAll (digits 4 identifier.toNat)) =
      ⟨parentHash.bytes ++ digits 4 identifier.toNat, BLOCK_HEADER_HASH_ENCODED_SIZE + 4⟩ := by
  have hp := parentHash.length_bytes
  simp [SeekFile.writeAll, SeekFile.seek, SeekFile.empty, hp, BLOCK_HEADER_HASH_ENCODED_SIZE,
    List.take_of_length_le, List.drop_eq_nil_of_le]

/-- Over an empty file, with each offset the end of its node, `write_trie_file`
leaves the header followed by the nodes back to back. -/
theorem writeTrieFile_eq {nodeData : List (TrieNodeType × TrieHash)} {offsets : List UInt32}
    (hoff : offsets.map UInt32.toNat = ends (BLOCK_HEADER_HASH_ENCODED_SIZE + 4) (nodeData.map nodeLength))
    (identifier : UInt32) (parentHash : BlockHeaderHash) :
    writeTrieFile SeekFile.empty nodeData offsets identifier parentHash =
      ok ⟨parentHash.bytes ++ digits 4 identifier.toNat ++
          (nodeData.map fun x => writeNodetypeBytes x.1 x.2).flatten,
        BLOCK_HEADER_HASH_ENCODED_SIZE + 4 + (nodeData.map nodeLength).sum⟩ := by
  have hlen : nodeData.length = offsets.length := by
    simpa using (congrArg List.length hoff).symm
  have hfold := foldl_writeAll_seek_ends (nodeData.map fun x => writeNodetypeBytes x.1 x.2)
    ⟨parentHash.bytes ++ digits 4 identifier.toNat, BLOCK_HEADER_HASH_ENCODED_SIZE + 4⟩
    (by simp [parentHash.length_bytes, BLOCK_HEADER_HASH_ENCODED_SIZE])
  have hlens : (nodeData.map fun x => writeNodetypeBytes x.1 x.2).map List.length =
      nodeData.map nodeLength := by
    rw [List.map_map]
    rfl
  rw [hlens, ← hoff, List.zip_map, List.foldl_map] at hfold
  simp only [writeTrieFile, if_pos hlen]
  rw [writeHeader_empty]
  exact congrArg ok hfold

/-- `write_trie_file` seeks to `u32` offsets, so the file it leaves is shorter
than `2^32` bytes and one node, however long the nodes are together. -/
theorem length_writeTrieFile_lt {nodeData : List (TrieNodeType × TrieHash)} {offsets : List UInt32}
    {identifier : UInt32} {parentHash : BlockHeaderHash} {file : SeekFile} {M : Nat}
    (hM : ∀ x ∈ nodeData, nodeLength x ≤ M)
    (h : writeTrieFile SeekFile.empty nodeData offsets identifier parentHash = ok file) :
    file.bytes.length < 2 ^ 32 + M := by
  have hlen : nodeData.length = offsets.length := by
    by_contra hne
    simp only [writeTrieFile, if_neg hne] at h
    cases h
  simp only [writeTrieFile, if_pos hlen] at h
  rw [writeHeader_empty] at h
  cases h
  apply length_foldl_writeAll_seek_lt (fun e : (TrieNodeType × TrieHash) × UInt32 => writeNodetypeBytes e.1.1 e.1.2)
    (fun e => e.2.toNat)
  · intro e he
    exact ⟨hM e.1 (List.of_mem_zip he).1, e.2.toNat_lt⟩
  · show BLOCK_HEADER_HASH_ENCODED_SIZE + 4 < 2 ^ 32
    decide
  · have hheader : (parentHash.bytes ++ digits 4 identifier.toNat).length = 36 := by
      simp [parentHash.length_bytes]
    show (parentHash.bytes ++ digits 4 identifier.toNat).length < 2 ^ 32 + M
    omega

end File

/-! ### Reading the file back -/

section Image

variable {ram : TrieRAM} {root : TrieNodeType × TrieHash} {css : List (List (TrieNodeType × TrieHash))}
  {nodeData : List (TrieNodeType × TrieHash)} {offsets : List UInt32} {ptr : Nat}

/-- A node has as many child pointers as it had children read. -/
theorem map_length_childPtrs {nodeData : List (TrieNodeType × TrieHash)}
    {css : List (List (TrieNodeType × TrieHash))}
    (h : List.Forall₂ (fun x cs => ram.readChildren x.1.ptrs = ok cs) nodeData css) :
    nodeData.map (fun x => (childPtrs x.1.ptrs).length) = css.map List.length := by
  induction h with
  | nil => rfl
  | cons hx _ ih => rw [List.map_cons, List.map_cons, ih, (readChildren_eq_ok_iff.mp hx).length_eq]

/-- Repointed nodes take the bytes of the nodes they were. -/
theorem map_nodeLength_of_repointed {nodeData nodeData' : List (TrieNodeType × TrieHash)}
    (hlen : nodeData'.length = nodeData.length)
    (hrew : ∀ j (hj : j < nodeData.length) (hj' : j < nodeData'.length),
      nodeData'[j].2 = nodeData[j].2 ∧ ∃ offs, Repointed nodeData[j].1 nodeData'[j].1 offs) :
    nodeData'.map nodeLength = nodeData.map nodeLength := by
  apply List.ext_getElem (by simp [hlen])
  intro j h1 h2
  obtain ⟨hh, _, hr⟩ := hrew j (by simpa using h2) (by simpa using h1)
  simp only [List.getElem_map, nodeLength, hh]
  exact hr.length_writeNodetypeBytes _

/-- In a finished walk, child `m` of node `j` reads as the node recorded after the
root, the children of the nodes before `j`, and the `m` children before it. -/
theorem Walked.read_child (hw : ram.Walked root css [] nodeData offsets ptr) {j : Nat}
    (hj : j < nodeData.length) {node : TrieNodeType} {hash : TrieHash} (hx : nodeData[j] = (node, hash))
    {m : Nat} (hm : m < (childPtrs node.ptrs).length) :
    ∃ hg : (css.take j).flatten.length + m + 1 < nodeData.length,
      ram.readNodetype (childPtrs node.ptrs)[m] = ok nodeData[(css.take j).flatten.length + m + 1] := by
  have hjc : j < css.length := hw.children.length_eq ▸ hj
  have hcs : ram.readChildren node.ptrs = ok css[j] := by
    have h := hw.children.get hj hjc
    simp only [List.get_eq_getElem, hx] at h
    exact h
  have hreads := readChildren_eq_ok_iff.mp hcs
  have hmc : m < css[j].length := hreads.length_eq ▸ hm
  have horder : nodeData = root :: css.flatten := by simpa using hw.order
  have hnode : nodeData[(css.take j).flatten.length + m + 1]? = some css[j][m] := by
    rw [horder, List.getElem?_cons_succ]
    exact getElem?_flatten_take hjc hmc
  obtain ⟨hg, heq⟩ := List.getElem?_eq_some_iff.mp hnode
  refine ⟨hg, ?_⟩
  rw [heq]
  simpa using hreads.get hm hmc

/-- Node `j` of nodes written back to back after a header is read back from
its start, through a pointer of its id. -/
theorem readNodetype_flatten_writeNodetypeBytes {nodes : List (TrieNodeType × TrieHash)} {header : Bytes}
    {j : Nat} (hj : j < nodes.length) (henc : nodes[j].1.Encodable) {q : TriePtr} (hqid : q.id = nodes[j].1.id)
    (hqptr : q.ptr.toNat = header.length + ((nodes.map nodeLength).take j).sum) :
    BlockstackCore.readNodetype (header ++ (nodes.map fun x => writeNodetypeBytes x.1 x.2).flatten) q =
      ok nodes[j] := by
  have hpre : ((nodes.map fun x => writeNodetypeBytes x.1 x.2).take j).flatten.length =
      ((nodes.map nodeLength).take j).sum := by
    rw [List.length_flatten, List.map_take, List.map_map]
    rfl
  rw [flatten_eq_take_append (by simpa using hj), List.getElem_map, ← List.append_assoc, ← List.append_assoc]
  exact readNodetype_append_writeNodetypeBytes nodes[j].2 henc _ _ hqid (by rw [hqptr, List.length_append, hpre])

/-- In a finished walk, child `m` of node `j`, repointed at the offsets after
those of the children of the nodes before it, points at the end of the node
recorded just before the child. -/
theorem Walked.toNat_ptr_repointed (hw : ram.Walked root css [] nodeData offsets ptr) (hfit : ptr < 2 ^ 32)
    {j m : Nat} (hg : (css.take j).flatten.length + m + 1 < nodeData.length) {node node' : TrieNodeType}
    (hrep : Repointed node node'
      ((offsets.drop ((nodeData.map fun x => (childPtrs x.1.ptrs).length).take j).sum).take
        (childPtrs node.ptrs).length))
    (hm : m < (childPtrs node.ptrs).length) (hm' : m < (childPtrs node'.ptrs).length) :
    (childPtrs node'.ptrs)[m].ptr.toNat =
      BLOCK_HEADER_HASH_ENCODED_SIZE + 4 + ((nodeData.map nodeLength).take ((css.take j).flatten.length + m + 1)).sum := by
  have hbase : ((nodeData.map fun x => (childPtrs x.1.ptrs).length).take j).sum =
      (css.take j).flatten.length := by
    rw [map_length_childPtrs hw.children, List.length_flatten, List.map_take]
  have hgo : (css.take j).flatten.length + m < offsets.length := by
    rw [hw.offsets_eq]
    simp only [List.length_map, length_ends]
    omega
  have h := congrArg (fun l => l[m]?) hrep.ptrs_children
  simp only [List.getElem?_map, List.getElem?_eq_getElem hm', Option.map_some, List.getElem?_take, hm,
    if_true, List.getElem?_drop, hbase, List.getElem?_eq_getElem hgo] at h
  rw [Option.some.inj h, hw.toNat_getElem_offsets hfit hgo]

/-- Reading the file back. The nodes of a finished walk, their children pointed
at the ends of the nodes the walk recorded them as, are written back to back
after a header; then each subtree of `ram` recorded as node `j` is found in the
file from the start of node `j`, through a pointer of its id. The induction is
on the subtree: a node is read back by the round trip of its encoding, and the
pointer to child `m` holds the end of the node before the one the walk recorded
the child as. -/
theorem diskImage_of_subtree (hw : ram.Walked root css [] nodeData offsets ptr) (hfit : ptr < 2 ^ 32)
    {nodeData' : List (TrieNodeType × TrieHash)} (hlen : nodeData'.length = nodeData.length)
    (hrew : ∀ j (hj : j < nodeData.length) (hj' : j < nodeData'.length),
      nodeData'[j].2 = nodeData[j].2 ∧
      Repointed nodeData[j].1 nodeData'[j].1
        ((offsets.drop ((nodeData.map fun x => (childPtrs x.1.ptrs).length).take j).sum).take
          (childPtrs nodeData[j].1.ptrs).length))
    {header : Bytes} (hheader : header.length = BLOCK_HEADER_HASH_ENCODED_SIZE + 4) :
    ∀ {p : TriePtr} {s : Nat}, ram.Subtree p s →
      ∀ j (hj : j < nodeData.length), ram.readNodetype p = ok nodeData[j] →
      ∀ q : TriePtr, q.id = p.id →
        q.ptr.toNat = BLOCK_HEADER_HASH_ENCODED_SIZE + 4 + ((nodeData.map nodeLength).take j).sum →
        ram.DiskImage (header ++ (nodeData'.map fun x => writeNodetypeBytes x.1 x.2).flatten) p q := by
  have hlens := map_nodeLength_of_repointed hlen fun j hj hj' =>
    ⟨(hrew j hj hj').1, _, (hrew j hj hj').2⟩
  intro p s hsub
  induction hsub with
  | @node p node hash sizes hread hid henc hlenc _ ih =>
    intro j hj hx q hqid hqptr
    have hxj : nodeData[j] = (node, hash) := (Outcome.ok.inj (hread.symm.trans hx)).symm
    have hj' : j < nodeData'.length := hlen ▸ hj
    obtain ⟨hhash, hrep⟩ := hrew j hj hj'
    rw [hxj] at hhash hrep
    -- node `j` sits after the header and the nodes before it
    have hdisk : BlockstackCore.readNodetype
        (header ++ (nodeData'.map fun x => writeNodetypeBytes x.1 x.2).flatten) q =
        ok (nodeData'[j].1, hash) := by
      rw [show hash = nodeData'[j].2 from hhash.symm]
      exact readNodetype_flatten_writeNodetypeBytes hj' (hrep.encodable henc) (by rw [hqid, hid, hrep.id_eq])
        (by rw [hqptr, hheader, hlens])
    refine .node hread hdisk hrep.forgetOffsets_eq ?_
    -- child `m`: recorded as node `g + 1`, and pointed at the end of node `g`
    intro c hc
    obtain ⟨m, hmz, rfl⟩ := List.mem_iff_getElem.mp hc
    have hm : m < (childPtrs node.ptrs).length := by
      simp only [List.length_zip] at hmz
      omega
    have hm' : m < (childPtrs nodeData'[j].1.ptrs).length := by
      simp only [List.length_zip] at hmz
      omega
    obtain ⟨hg, hchild⟩ := hw.read_child hj hxj hm
    have hsubm := ih _ (List.getElem_mem (by simp only [List.length_zip]; omega : m < ((childPtrs node.ptrs).zip sizes).length))
    simp only [List.getElem_zip] at hsubm ⊢
    exact hsubm _ hg hchild _ (hrep.id_getElem_childPtrs hm hm') (hw.toNat_ptr_repointed hfit hg hrep hm hm')

end Image

/-! ### Dumping -/

/-- The three passes of `dump` over a tree of `size` nodes: the walk records all
of them, the rewrite repoints each child pointer at an offset of the walk, and
the write goes through. `dump` returns where the walk ended. -/
theorem dump_eq_ok_of_subtree {ram : TrieRAM} {size fuel : Nat}
    (htree : ram.Subtree ⟨TrieNodeID.Node256, 0, 0, 0⟩ size) (hfuel : size < fuel) :
    ∃ root css nodeData offsets ptr nodeData' file,
      ram.readNodetype ⟨TrieNodeID.Node256, 0, 0, 0⟩ = ok root ∧
      ram.Walked root css [] nodeData offsets ptr ∧ nodeData.length = size ∧
      nodeData'.length = nodeData.length ∧
      (∀ j (hj : j < nodeData.length) (hj' : j < nodeData'.length),
        nodeData'[j].2 = nodeData[j].2 ∧
        Repointed nodeData[j].1 nodeData'[j].1
          ((offsets.drop ((nodeData.map fun x => (childPtrs x.1.ptrs).length).take j).sum).take
            (childPtrs nodeData[j].1.ptrs).length)) ∧
      writeTrieFile SeekFile.empty nodeData' offsets ram.identifier ram.parent = ok file ∧
      ram.dump fuel SeekFile.empty ram.blockHeader = ok (ptr, file) := by
  obtain ⟨root, hroot⟩ := htree.readNodetype
  -- step 1 records the whole tree
  obtain ⟨css, nodeData, offsets, ptr, hloop, hw, hsize⟩ :=
    dumpTraverseLoop_run fuel (Walked.start root) (.cons ⟨_, hroot, htree⟩ .nil) (by simpa using hfuel)
  have horder : nodeData = root :: css.flatten := by simpa using hw.order
  have hlenOff : offsets.length = nodeData.length := by simp [hw.offsets_eq]
  -- step 2 finds an offset for every child: there is one child fewer than nodes
  have hcount : (nodeData.map fun x => (childPtrs x.1.ptrs).length).sum < offsets.length := by
    have hsum : (nodeData.map fun x => (childPtrs x.1.ptrs).length).sum = css.flatten.length := by
      rw [map_length_childPtrs hw.children, List.length_flatten]
    have hlenN : nodeData.length = css.flatten.length + 1 := by
      rw [horder, List.length_cons]
    omega
  obtain ⟨nodeData', hrw, hlen, hrel⟩ := @rewriteNodes_eq offsets nodeData 0 (by omega)
  -- step 3 writes whatever the offsets are
  obtain ⟨file, hfile⟩ : ∃ file,
      writeTrieFile SeekFile.empty nodeData' offsets ram.identifier ram.parent = ok file :=
    ⟨_, by rw [writeTrieFile, if_pos (by omega)]⟩
  refine ⟨root, css, nodeData, offsets, ptr, nodeData', file, hroot, hw, by simpa using hsize, hlen,
    fun j hj hj' => by simpa only [Nat.zero_add] using hrel j hj hj', hfile, ?_⟩
  rw [dump, if_pos rfl, hroot, ok_bind]
  simp only [dumpTraverse, hloop, ok_bind, if_pos hlenOff, hrw, hfile]

/-- A trie of two nodes: the root `Node256` at index 0, with a leaf at byte 0
that sits at index 1. -/
def rootAndLeaf : TrieRAM where
  data := [(.node256 ⟨[], (List.replicate 256 TriePtr.default).set 0 ⟨TrieNodeID.Leaf, 0, 1, 0⟩,
        by rw [List.length_set, List.length_replicate]⟩,
      ⟨List.replicate 32 0, List.length_replicate⟩),
    (.leaf ⟨[], ⟨List.replicate 40 0, List.length_replicate⟩⟩, ⟨List.replicate 32 0, List.length_replicate⟩)]
  blockHeader := ⟨List.replicate 32 1, List.length_replicate⟩
  identifier := 7
  parent := ⟨List.replicate 32 2, List.length_replicate⟩

/-- Node `i` of a chain of `n` `Node256`s with empty paths: it points at node
`i + 1` from slot 0, and the last node has no child. -/
def chainNode (n i : Nat) : TrieNodeType :=
  .node256 ⟨[], if i + 1 < n then
      (List.replicate 256 TriePtr.default).set 0 ⟨TrieNodeID.Node256, 0, UInt32.ofNat (i + 1), 0⟩
    else List.replicate 256 TriePtr.default, by
      split
      · rw [List.length_set, List.length_replicate]
      · exact List.length_replicate⟩

def chainHash : TrieHash := ⟨List.replicate 32 0, List.length_replicate⟩

/-- The chain of `n` nodes, node `i` at index `i`. -/
def chain (n : Nat) : TrieRAM where
  data := (List.range n).map fun i => (chainNode n i, chainHash)
  blockHeader := ⟨List.replicate 32 1, List.length_replicate⟩
  identifier := 7
  parent := ⟨List.replicate 32 2, List.length_replicate⟩

theorem childPtrs_replicate_default : ∀ m : Nat, childPtrs (List.replicate m TriePtr.default) = []
  | 0 => rfl
  | m + 1 => by
    rw [List.replicate_succ, childPtrs_cons_of_not _ (by decide), childPtrs_replicate_default m]

theorem ptrs_chainNode (n i : Nat) :
    (chainNode n i).ptrs = if i + 1 < n then
      (List.replicate 256 TriePtr.default).set 0 ⟨TrieNodeID.Node256, 0, UInt32.ofNat (i + 1), 0⟩
    else List.replicate 256 TriePtr.default := rfl

theorem childPtrs_chainNode (n i : Nat) :
    childPtrs (chainNode n i).ptrs =
      if i + 1 < n then [⟨TrieNodeID.Node256, 0, UInt32.ofNat (i + 1), 0⟩] else [] := by
  have hchild : TriePtr.IsChild ⟨TrieNodeID.Node256, 0, UInt32.ofNat (i + 1), 0⟩ :=
    ⟨show TrieNodeID.Node256 ≠ TrieNodeID.Empty by decide, show isBackptr TrieNodeID.Node256 = false by decide⟩
  rw [ptrs_chainNode]
  by_cases hi : i + 1 < n
  · rw [if_pos hi, if_pos hi, show (256 : Nat) = 255 + 1 from rfl, List.replicate_succ, List.set_cons_zero,
      childPtrs_cons_of_isChild _ hchild, childPtrs_replicate_default]
  · rw [if_neg hi, if_neg hi, childPtrs_replicate_default]

theorem encodable_chainNode (n i : Nat) : (chainNode n i).Encodable :=
  ⟨Nat.zero_le TRIEPATH_MAX_LEN, fun _ h => nomatch h⟩

/-- A `Node256` with an empty path takes 2594 bytes: the hash, the id, 256
pointers of 10 bytes and the path length. -/
theorem nodeLength_node256 (d : TrieNode256) (hd : d.path = []) (hash : TrieHash) :
    nodeLength (.node256 d, hash) = 2594 := by
  simp only [nodeLength, writeNodetypeBytes, TrieNodeType.writeBytes, writeNodeBytes, List.length_append,
    hash.length_bytes, length_writePtrsToBytes, d.length_ptrs, hd, writePathToBytes, List.length_cons,
    List.length_nil, TRIEPTR_SIZE]

theorem readNodetype_chain {n i : Nat} (hi : i < n) (hn : n ≤ 2 ^ 32) :
    (chain n).readNodetype ⟨TrieNodeID.Node256, 0, UInt32.ofNat i, 0⟩ = ok (chainNode n i, chainHash) := by
  have hsize : UInt32.size = 2 ^ 32 := rfl
  have hi32 : (UInt32.ofNat i).toNat = i := UInt32.toNat_ofNat_of_lt' (by omega)
  simp [readNodetype, chain, hi32, hi]

/-- The chain from node `n - 1 - k` on is a tree of `k + 1` encodable nodes. The
induction is on `k`, from the last node back. -/
theorem subtree_chain {n : Nat} (hn : n ≤ 2 ^ 32) :
    ∀ k, k < n → (chain n).Subtree ⟨TrieNodeID.Node256, 0, UInt32.ofNat (n - 1 - k), 0⟩ (k + 1)
  | 0, hk => by
    have hlast : ¬ n - 1 - 0 + 1 < n := by omega
    refine .node [] (readNodetype_chain (by omega) hn) rfl (encodable_chainNode _ _) ?_ ?_
    · rw [childPtrs_chainNode, if_neg hlast]
      rfl
    · rw [childPtrs_chainNode, if_neg hlast]
      exact fun _ h => nomatch h
  | k + 1, hk => by
    have hnext : n - 1 - (k + 1) + 1 < n := by omega
    have hptr : n - 1 - (k + 1) + 1 = n - 1 - k := by omega
    refine .node [k + 1] (readNodetype_chain (by omega) hn) rfl (encodable_chainNode _ _) ?_ ?_
    · rw [childPtrs_chainNode, if_pos hnext]
      rfl
    · rw [childPtrs_chainNode, if_pos hnext, hptr]
      intro c hc
      rw [List.zip_cons_cons, List.zip_nil_left, List.mem_singleton] at hc
      subst hc
      exact subtree_chain hn k (by omega)

/-- `dump` counts the `2594` bytes of each of the `n` nodes of a chain after the
header, but the file it leaves is shorter than `2^32 + 2594` bytes. -/
theorem dump_chain {n : Nat} (hn0 : 0 < n) (hn : n ≤ 2 ^ 32) :
    ∃ file, (chain n).dump (n + 1) SeekFile.empty (chain n).blockHeader =
        ok (BLOCK_HEADER_HASH_ENCODED_SIZE + 4 + n * 2594, file) ∧
      file.bytes.length < 2 ^ 32 + 2594 := by
  have htree : (chain n).Subtree ⟨TrieNodeID.Node256, 0, 0, 0⟩ n := by
    have h := subtree_chain hn (n - 1) (by omega)
    rwa [show n - 1 - (n - 1) = 0 by omega, show n - 1 + 1 = n by omega] at h
  obtain ⟨root, css, nodeData, offsets, ptr, nodeData', file, hroot, hw, hsize, hlen, hrel, hfile, hdump⟩ :=
    dump_eq_ok_of_subtree htree (Nat.lt_succ_self n)
  -- every recorded node is a node of the chain, of 2594 bytes
  have hnodes : nodeData.map nodeLength = List.replicate nodeData.length 2594 := by
    rw [← List.map_const', List.map_inj_left]
    intro x hx
    obtain ⟨i, -, rfl⟩ := List.mem_map.mp (hw.mem_data (mem_data_of_readNodetype hroot) x hx)
    exact nodeLength_node256 _ rfl chainHash
  have hlens := map_nodeLength_of_repointed hlen fun j hj hj' =>
    ⟨(hrel j hj hj').1, _, (hrel j hj hj').2⟩
  refine ⟨file, ?_, length_writeTrieFile_lt ?_ hfile⟩
  · rw [hdump, hw.ptr_eq, hnodes, List.sum_replicate, hsize, smul_eq_mul]
  · intro x hx
    have hmem : nodeLength x ∈ nodeData'.map nodeLength := List.mem_map_of_mem hx
    rw [hlens, hnodes] at hmem
    exact (List.eq_of_mem_replicate hmem).le

end TrieRAM

end BlockstackCore
