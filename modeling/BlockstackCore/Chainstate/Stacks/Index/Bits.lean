import BlockstackCore.Library.ByteCodec
import BlockstackCore.Chainstate.Stacks.Index.Node

/-!
# The byte layout of trie nodes

`chainstate/stacks/index/bits.rs`, and the `write_bytes`, `from_bytes` and
`byte_len` of each node kind in `node.rs`. A node on disk is its 32-byte hash,
then its id byte and its child pointers (10 bytes each: id, path byte, and the
storage pointer and block as big-endian `u32`s), then, for a `TrieNode48`, its
256 indexes as bytes, and last its path: a length byte and the path's bytes. A
leaf is its id, its path and its 40 bytes of data.

The stream is the list of bytes not yet read: `read_exact` past its end fails,
and `read` into a buffer returns the bytes there are. `read_nodetype` seeks to
the pointer's offset first. The decoders raise `CorruptionError` with the
source's texts, without the values they format into them; in memory no read
raises an `IOError`.

`readNodetype_writeNodetypeBytes` is the round trip: a node whose path fits and
whose index array is consistent is read back, with its hash, from where it was
written, and `get_node_byte_len` is the number of bytes written.
-/

namespace BlockstackCore

open ByteCodec Outcome

/-- `chainstate::stacks::index::Error`, with the variant the decoders raise. -/
inductive IndexError where
  | notFoundError
  | corruptionError (msg : String)
  deriving DecidableEq, Repr

def TRIEPATH_MAX_LEN : Nat := 32

def TRIEPTR_SIZE : Nat := 10

def TRIEHASH_ENCODED_SIZE : Nat := 32

def MARF_VALUE_ENCODED_SIZE : Nat := 40

/-- A decoder: what it read, and the bytes after it. -/
abbrev NodeReader (α : Type) := Bytes → Outcome IndexError (α × Bytes)

/-- `is_backptr`: the id has the back-pointer bit set. -/
def isBackptr (id : UInt8) : Bool := id &&& 0x80 != 0

/-- `clear_backptr`: the id without the back-pointer bit. -/
def clearBackptr (id : UInt8) : UInt8 := id &&& 0x7f

def checkNodeId (nid : UInt8) : Bool :=
  let nodeId := clearBackptr nid
  nodeId == TrieNodeID.Leaf || nodeId == TrieNodeID.Node4 || nodeId == TrieNodeID.Node16 ||
    nodeId == TrieNodeID.Node48 || nodeId == TrieNodeID.Node256

/-- `node_id_to_ptr_count`; an unknown id panics. -/
def nodeIdToPtrCount (nodeId : UInt8) : Outcome IndexError Nat :=
  let id := clearBackptr nodeId
  if id = TrieNodeID.Leaf then ok 1
  else if id = TrieNodeID.Node4 then ok 4
  else if id = TrieNodeID.Node16 then ok 16
  else if id = TrieNodeID.Node48 then ok 48
  else if id = TrieNodeID.Node256 then ok 256
  else panic

/-! ### Writing -/

/-- `TriePtr::write_bytes`. -/
def TriePtr.writeBytes (p : TriePtr) : Bytes :=
  [p.id, p.chr] ++ beBytes 4 p.ptr.toNat ++ beBytes 4 p.backBlock.toNat

/-- `TriePtr::from_bytes`, on the 10-byte slices `ptrs_from_bytes` gives it (so
its assertion on the length holds). -/
def TriePtr.fromBytes (bytes : Bytes) : TriePtr :=
  ⟨bytes.getD 0 0, bytes.getD 1 0, UInt32.ofNat (ofBeBytes ((bytes.drop 2).take 4)),
    UInt32.ofNat (ofBeBytes ((bytes.drop 6).take 4))⟩

def writePtrsToBytes (ptrs : List TriePtr) : Bytes := ptrs.flatMap TriePtr.writeBytes

/-- `write_path_to_bytes`: the length `as u8`, then the bytes. -/
def writePathToBytes (path : List UInt8) : Bytes := UInt8.ofNat path.length :: path

/-- The `write_bytes` that `TrieNode4`, `TrieNode16` and `TrieNode256` take from
the `TrieNode` trait. -/
def writeNodeBytes (id : UInt8) (ptrs : List TriePtr) (path : List UInt8) : Bytes :=
  [id] ++ writePtrsToBytes ptrs ++ writePathToBytes path

/-- `TrieNode48::write_bytes`: each index `as u8` between the pointers and the path. -/
def TrieNode48.writeBytes (node : TrieNode48) : Bytes :=
  [TrieNodeID.Node48] ++ writePtrsToBytes node.ptrs ++ node.indexes.map Int8.toUInt8 ++
    writePathToBytes node.path

def TrieLeaf.writeBytes (leaf : TrieLeaf) : Bytes :=
  [TrieNodeID.Leaf] ++ writePathToBytes leaf.path ++ leaf.data.bytes

/-- `get_path_byte_len`, which asserts that the path is shorter than 255 bytes. -/
def getPathByteLen (p : List UInt8) : Outcome Empty Nat :=
  if p.length < 255 then ok (1 + p.length) else panic

def getPtrsByteLen (ptrs : List TriePtr) : Nat := 1 + TRIEPTR_SIZE * ptrs.length

/-- The `byte_len` of the `TrieNode` trait. -/
def nodeByteLen (ptrs : List TriePtr) (path : List UInt8) : Outcome Empty Nat := do
  ok (getPtrsByteLen ptrs + (← getPathByteLen path))

def TrieNode48.byteLen (node : TrieNode48) : Outcome Empty Nat := do
  ok (getPtrsByteLen node.ptrs + 256 + (← getPathByteLen node.path))

def TrieLeaf.byteLen (leaf : TrieLeaf) : Outcome Empty Nat := do
  ok (1 + (← getPathByteLen leaf.path) + leaf.data.bytes.length)

namespace TrieNodeType

def id : TrieNodeType → UInt8
  | node4 _ => TrieNodeID.Node4
  | node16 _ => TrieNodeID.Node16
  | node48 _ => TrieNodeID.Node48
  | node256 _ => TrieNodeID.Node256
  | leaf _ => TrieNodeID.Leaf

def path : TrieNodeType → List UInt8
  | node4 data => data.path
  | node16 data => data.path
  | node48 data => data.path
  | node256 data => data.path
  | leaf data => data.path

def writeBytes : TrieNodeType → Bytes
  | node4 data => writeNodeBytes TrieNodeID.Node4 data.ptrs data.path
  | node16 data => writeNodeBytes TrieNodeID.Node16 data.ptrs data.path
  | node48 data => data.writeBytes
  | node256 data => writeNodeBytes TrieNodeID.Node256 data.ptrs data.path
  | leaf data => data.writeBytes

def byteLen : TrieNodeType → Outcome Empty Nat
  | node4 data => nodeByteLen data.ptrs data.path
  | node16 data => nodeByteLen data.ptrs data.path
  | node48 data => data.byteLen
  | node256 data => nodeByteLen data.ptrs data.path
  | leaf data => data.byteLen

end TrieNodeType

/-- `get_node_byte_len`: the hash and the node. -/
def getNodeByteLen (node : TrieNodeType) : Outcome Empty Nat := do
  ok (TRIEHASH_ENCODED_SIZE + (← node.byteLen))

/-- The bytes `write_nodetype_bytes` writes: the hash, then the node. It returns
their number. -/
def writeNodetypeBytes (node : TrieNodeType) (hash : TrieHash) : Bytes :=
  hash.bytes ++ node.writeBytes

/-! ### Reading -/

/-- `read_hash_bytes`. -/
def readHashBytes : NodeReader TrieHash := fun r =>
  match h : readExact TRIEHASH_ENCODED_SIZE r with
  | .ok (bytes, r) => ok (⟨bytes, (readExact_eq_ok h).1⟩, r)
  | .error _ => err (.corruptionError "Failed to read hash in full")

/-- `path_from_bytes`. -/
def pathFromBytes : NodeReader (List UInt8) := fun r =>
  match r with
  | [] => err (.corruptionError "Failed to read len buf")
  | len :: r =>
    if len.toNat > TRIEPATH_MAX_LEN then err (.corruptionError "Node path is longer than 32 bytes")
    else
      match readExact len.toNat r with
      | .ok (path, r) => ok (path, r)
      | .error _ => err (.corruptionError "Failed to read bytes of path")

/-- The loop of `ptrs_from_bytes`: a pointer from each 10-byte slice. -/
def ptrsOfSlices : Nat → Bytes → List TriePtr
  | 0, _ => []
  | n + 1, bytes => TriePtr.fromBytes (bytes.take TRIEPTR_SIZE) :: ptrsOfSlices n (bytes.drop TRIEPTR_SIZE)

/-- `ptrs_from_bytes`: the id byte, which must be the node's up to the
back-pointer bit, then the pointers its id calls for. It returns the id read. -/
def ptrsFromBytes (nodeId : UInt8) : NodeReader (UInt8 × List TriePtr) := fun r =>
  if !checkNodeId nodeId then err (.corruptionError "Bad node ID")
  else
    match r with
    | [] => err (.corruptionError "Failed to read ptrs buf length")
    | nid :: r =>
      if clearBackptr nid != clearBackptr nodeId then
        err (.corruptionError "Failed to read expected node ID")
      else do
        let numPtrs ← nodeIdToPtrCount nodeId
        match readExact (numPtrs * TRIEPTR_SIZE) r with
        | .ok (bytes, r) => ok ((nid, ptrsOfSlices numPtrs bytes), r)
        | .error _ => err (.corruptionError "Failed to read bytes of ptrs")

/-- `TrieNode4::from_bytes` and `TrieNode16::from_bytes`: the pointers fill the
node's `n` slots (a count past them would index out of the array), then the path. -/
def ScanNode.fromBytes (n : Nat) (nodeId : UInt8) : NodeReader (ScanNode n) := fun r => do
  let ((_, ptrs), r) ← ptrsFromBytes nodeId r
  if h : ptrs.length = n then do
    let (path, r) ← pathFromBytes r
    ok (⟨path, ptrs, h⟩, r)
  else panic

def TrieNode4.fromBytes : NodeReader TrieNode4 := ScanNode.fromBytes 4 TrieNodeID.Node4

def TrieNode16.fromBytes : NodeReader TrieNode16 := ScanNode.fromBytes 16 TrieNodeID.Node16

def TrieNode256.fromBytes : NodeReader TrieNode256 := fun r => do
  let ((_, ptrs), r) ← ptrsFromBytes TrieNodeID.Node256 r
  if h : ptrs.length = 256 then do
    let (path, r) ← pathFromBytes r
    ok (⟨path, ptrs, h⟩, r)
  else panic

/-- An index that passes the second check of `TrieNode48::from_bytes` is below 48. -/
theorem lt_48_of_checked {i : Int8} {live : Prop}
    (h : i < 0 ∨ (0 ≤ i ∧ i.toNatClampNeg < 48 ∧ live)) : i < 48 := by
  rw [Int8.lt_iff_toInt_lt]
  have h48 : (48 : Int8).toInt = 48 := rfl
  rcases h with h | ⟨h0, hlt, -⟩
  · rw [Int8.lt_iff_toInt_lt] at h
    have h0 : (0 : Int8).toInt = 0 := rfl
    omega
  · rw [Int8.le_iff_toInt_le] at h0
    rw [← Int8.toNat_toInt] at hlt
    have h0' : (0 : Int8).toInt = 0 := rfl
    omega

/-- `TrieNode48::from_bytes`: the pointers, the 256 index bytes `as i8`, the
path; then every live pointer's byte must have an index in `0..48`, and every
non-negative index must name a live slot. -/
def TrieNode48.fromBytes : NodeReader TrieNode48 := fun r => do
  let ((_, ptrs), r) ← ptrsFromBytes TrieNodeID.Node48 r
  if hptrs : ptrs.length = 48 then
    let indexBytes := r.take 256
    if hlen : indexBytes.length = 256 then do
      let (path, r) ← pathFromBytes (r.drop 256)
      let indexes := indexBytes.map UInt8.toInt8
      if ¬ ∀ ptr ∈ ptrs, ptr.id = TrieNodeID.Empty ∨
          (0 ≤ indexes.getD ptr.chr.toNat 0 ∧ indexes.getD ptr.chr.toNat 0 < 48) then
        err (.corruptionError "Node48: corrupt index array: invalid index value")
      else if hidx : ∀ i ∈ indexes, i < 0 ∨
          (0 ≤ i ∧ i.toNatClampNeg < 48 ∧ (ptrs.getD i.toNatClampNeg TriePtr.default).IsLive) then
        ok (⟨path, indexes, ptrs, by rw [List.length_map, hlen], hptrs,
          fun i hi => lt_48_of_checked (hidx i hi)⟩, r)
      else err (.corruptionError "Node48: corrupt index array: index points to empty node")
    else err (.corruptionError "Node48: Failed to read 256 indexes")
  else panic

/-- `TrieLeaf::from_bytes`. -/
def TrieLeaf.fromBytes : NodeReader TrieLeaf := fun r =>
  match r with
  | [] => err (.corruptionError "Leaf: failed to read ID")
  | id :: r =>
    if clearBackptr id != TrieNodeID.Leaf then err (.corruptionError "Leaf: bad ID")
    else do
      let (path, r) ← pathFromBytes r
      let leafData := r.take MARF_VALUE_ENCODED_SIZE
      if h : leafData.length = MARF_VALUE_ENCODED_SIZE then
        ok (⟨path, ⟨leafData, h⟩⟩, r.drop MARF_VALUE_ENCODED_SIZE)
      else err (.corruptionError "Leaf: read only part of the data")

/-- `read_nodetype`: seek to the pointer, read the hash, then the node of the
pointer's id. -/
def readNodetype (f : Bytes) (ptr : TriePtr) : Outcome IndexError (TrieNodeType × TrieHash) := do
  let (h, r) ← readHashBytes (f.drop ptr.ptr.toNat)
  if ptr.id = TrieNodeID.Node4 then do
    let (node, _) ← TrieNode4.fromBytes r
    ok (.node4 node, h)
  else if ptr.id = TrieNodeID.Node16 then do
    let (node, _) ← TrieNode16.fromBytes r
    ok (.node16 node, h)
  else if ptr.id = TrieNodeID.Node48 then do
    let (node, _) ← TrieNode48.fromBytes r
    ok (.node48 node, h)
  else if ptr.id = TrieNodeID.Node256 then do
    let (node, _) ← TrieNode256.fromBytes r
    ok (.node256 node, h)
  else if ptr.id = TrieNodeID.Leaf then do
    let (node, _) ← TrieLeaf.fromBytes r
    ok (.leaf node, h)
  else err (.corruptionError "read_node_type: Unknown trie node type")

/-! ### Round trips of the parts -/

@[simp] theorem TriePtr.length_writeBytes (p : TriePtr) : p.writeBytes.length = TRIEPTR_SIZE := by
  simp [TriePtr.writeBytes, TRIEPTR_SIZE]

theorem TriePtr.fromBytes_writeBytes (p : TriePtr) : TriePtr.fromBytes p.writeBytes = p := by
  have hptr : (p.writeBytes.drop 2).take 4 = beBytes 4 p.ptr.toNat := by
    simp [TriePtr.writeBytes, List.take_left']
  have hblock : (p.writeBytes.drop 6).take 4 = beBytes 4 p.backBlock.toNat := by
    simp [TriePtr.writeBytes, List.drop_left', List.take_of_length_le]
  have hlt (x : UInt32) : x.toNat < 256 ^ 4 := x.toNat_lt
  simp only [TriePtr.fromBytes, hptr, hblock, ofBeBytes_beBytes_of_lt (hlt _), UInt32.ofNat_toNat]
  rfl

theorem length_writePtrsToBytes (ptrs : List TriePtr) :
    (writePtrsToBytes ptrs).length = ptrs.length * TRIEPTR_SIZE := by
  induction ptrs with
  | nil => rfl
  | cons p ps ih =>
    rw [writePtrsToBytes, List.flatMap_cons, ← writePtrsToBytes, List.length_append, ih,
      TriePtr.length_writeBytes, List.length_cons, Nat.add_mul, Nat.one_mul, Nat.add_comm]

/-- The slices of written pointers are the pointers. -/
theorem ptrsOfSlices_writePtrsToBytes (ptrs : List TriePtr) :
    ptrsOfSlices ptrs.length (writePtrsToBytes ptrs) = ptrs := by
  induction ptrs with
  | nil => rfl
  | cons p ps ih =>
    rw [List.length_cons, ptrsOfSlices, writePtrsToBytes, List.flatMap_cons, ← writePtrsToBytes,
      List.take_left' (TriePtr.length_writeBytes p), List.drop_left' (TriePtr.length_writeBytes p),
      TriePtr.fromBytes_writeBytes, ih]

theorem ptrsFromBytes_writePtrsToBytes {nodeId : UInt8} {ptrs : List TriePtr}
    (hcheck : checkNodeId nodeId = true) (hcount : nodeIdToPtrCount nodeId = ok ptrs.length)
    (rest : Bytes) :
    ptrsFromBytes nodeId (nodeId :: (writePtrsToBytes ptrs ++ rest)) = ok ((nodeId, ptrs), rest) := by
  have hread : readExact (ptrs.length * TRIEPTR_SIZE) (writePtrsToBytes ptrs ++ rest) =
      .ok (writePtrsToBytes ptrs, rest) :=
    readExact_append rest (length_writePtrsToBytes ptrs)
  simp only [ptrsFromBytes, hcheck, Bool.not_true, Bool.false_eq_true, if_false,
    bne_self_eq_false, hcount, ok_bind, hread, ptrsOfSlices_writePtrsToBytes]

theorem pathFromBytes_writePathToBytes {path : List UInt8} (hpath : path.length ≤ TRIEPATH_MAX_LEN)
    (rest : Bytes) : pathFromBytes (writePathToBytes path ++ rest) = ok (path, rest) := by
  have hlen : (UInt8.ofNat path.length).toNat = path.length :=
    UInt8.toNat_ofNat_of_lt' (by unfold TRIEPATH_MAX_LEN at hpath; unfold UInt8.size; omega)
  have hfits : ¬ path.length > TRIEPATH_MAX_LEN := by omega
  simp only [pathFromBytes, writePathToBytes, List.cons_append, hfits, if_false, hlen,
    readExact_append rest rfl]

theorem readHashBytes_append (hash : TrieHash) (rest : Bytes) :
    readHashBytes (hash.bytes ++ rest) = ok (hash, rest) := by
  have hlen : hash.bytes.length = TRIEHASH_ENCODED_SIZE := hash.length_bytes
  unfold readHashBytes
  split
  · rename_i bytes r h
    rw [readExact_append rest hlen] at h
    cases h
    rfl
  · rename_i e h
    rw [readExact_append rest hlen] at h
    cases h

/-! ### Round trips of the nodes -/

theorem writeNodeBytes_append (id : UInt8) (ptrs : List TriePtr) (path : List UInt8) (rest : Bytes) :
    writeNodeBytes id ptrs path ++ rest = id :: (writePtrsToBytes ptrs ++ (writePathToBytes path ++ rest)) := by
  simp [writeNodeBytes]

theorem ScanNode.fromBytes_writeNodeBytes {n : Nat} {nodeId : UInt8} (node : ScanNode n)
    (hcheck : checkNodeId nodeId = true) (hcount : nodeIdToPtrCount nodeId = ok n)
    (hpath : node.path.length ≤ TRIEPATH_MAX_LEN) (rest : Bytes) :
    ScanNode.fromBytes n nodeId (writeNodeBytes nodeId node.ptrs node.path ++ rest) =
      ok (node, rest) := by
  have hptrs := ptrsFromBytes_writePtrsToBytes hcheck (node.length_ptrs ▸ hcount)
    (writePathToBytes node.path ++ rest)
  simp only [ScanNode.fromBytes, writeNodeBytes_append, hptrs, ok_bind, dif_pos node.length_ptrs,
    pathFromBytes_writePathToBytes hpath]

theorem TrieNode256.fromBytes_writeNodeBytes (node : TrieNode256)
    (hpath : node.path.length ≤ TRIEPATH_MAX_LEN) (rest : Bytes) :
    TrieNode256.fromBytes (writeNodeBytes TrieNodeID.Node256 node.ptrs node.path ++ rest) =
      ok (node, rest) := by
  have hcount : nodeIdToPtrCount TrieNodeID.Node256 = ok node.ptrs.length := by
    rw [node.length_ptrs]
    rfl
  have hptrs := ptrsFromBytes_writePtrsToBytes (by decide) hcount (writePathToBytes node.path ++ rest)
  simp only [TrieNode256.fromBytes, writeNodeBytes_append, hptrs, ok_bind, dif_pos node.length_ptrs,
    pathFromBytes_writePathToBytes hpath]

namespace TrieNode48

/-- Every byte is in range of the index array, whatever the default. -/
theorem getD_indexes (node : TrieNode48) (c : UInt8) (d : Int8) :
    node.indexes.getD c.toNat d = node.index c := by
  have hc : c.toNat < node.indexes.length := by
    rw [node.length_indexes]
    exact UInt8.toNat_lt_256 c
  simp [index, List.getD_eq_getElem?_getD, hc]

/-- The first check of `from_bytes` passes on a consistent node: a live slot is
the index of its byte. -/
theorem Consistent.ptrs_checked {node : TrieNode48} (hc : node.Consistent) :
    ∀ ptr ∈ node.ptrs, ptr.id = TrieNodeID.Empty ∨
      (0 ≤ node.indexes.getD ptr.chr.toNat 0 ∧ node.indexes.getD ptr.chr.toNat 0 < 48) := by
  intro ptr hp
  by_cases hlive : ptr.IsLive
  · obtain ⟨i, hi, rfl⟩ := List.getElem_of_mem hp
    have hi48 : i < 48 := node.length_ptrs ▸ hi
    have hidx := hc.slot_index i hi48 (slot_eq_getElem hi ▸ hlive)
    rw [slot_eq_getElem hi] at hidx
    rw [getD_indexes, hidx]
    exact Or.inr ⟨ofNat_slot_nonneg hi48, ofNat_slot_lt hi48⟩
  · exact Or.inl (not_not.mp hlive)

/-- The second check of `from_bytes` passes on a consistent node: a
non-negative index names a live slot. -/
theorem Consistent.indexes_checked {node : TrieNode48} (hc : node.Consistent) :
    ∀ i ∈ node.indexes, i < 0 ∨
      (0 ≤ i ∧ i.toNatClampNeg < 48 ∧ (node.ptrs.getD i.toNatClampNeg TriePtr.default).IsLive) := by
  intro x hx
  obtain ⟨c, hc256, rfl⟩ := List.getElem_of_mem hx
  have hlt : c < 256 := node.length_indexes ▸ hc256
  -- the index at position `c` is the index of the byte `c`
  have hindex : node.index (UInt8.ofNat c) = node.indexes[c] := by
    simp [index, List.getD_eq_getElem?_getD, UInt8.toNat_ofNat_of_lt' (show c < UInt8.size from hlt),
      hc256]
  by_cases h0 : node.indexes[c] < 0
  · exact Or.inl h0
  · have h0' : 0 ≤ node.indexes[c] := Int8.not_lt.mp h0
    have hlive := (hc.index_slot (UInt8.ofNat c) (hindex ▸ h0')).1
    rw [slotOf, hindex] at hlive
    exact Or.inr ⟨h0', toNatClampNeg_lt_of_lt (node.indexes_lt _ hx), hlive⟩

theorem fromBytes_writeBytes {node : TrieNode48} (hc : node.Consistent)
    (hpath : node.path.length ≤ TRIEPATH_MAX_LEN) (rest : Bytes) :
    TrieNode48.fromBytes (node.writeBytes ++ rest) = ok (node, rest) := by
  have hcount : nodeIdToPtrCount TrieNodeID.Node48 = ok node.ptrs.length := by
    rw [node.length_ptrs]
    rfl
  have hlen : (node.indexes.map Int8.toUInt8).length = 256 := by
    rw [List.length_map, node.length_indexes]
  have hbytes : node.writeBytes ++ rest = TrieNodeID.Node48 :: (writePtrsToBytes node.ptrs ++
      (node.indexes.map Int8.toUInt8 ++ (writePathToBytes node.path ++ rest))) := by
    simp [TrieNode48.writeBytes]
  have hptrs := ptrsFromBytes_writePtrsToBytes (by decide) hcount
    (node.indexes.map Int8.toUInt8 ++ (writePathToBytes node.path ++ rest))
  have hindexes : (node.indexes.map Int8.toUInt8).map UInt8.toInt8 = node.indexes := by
    simp [List.map_map, Function.comp_def]
  rw [hbytes, TrieNode48.fromBytes]
  simp only [hptrs, ok_bind, dif_pos node.length_ptrs, List.take_left' hlen, dif_pos hlen,
    List.drop_left' hlen, pathFromBytes_writePathToBytes hpath, hindexes,
    if_neg (not_not.mpr hc.ptrs_checked), dif_pos hc.indexes_checked]

end TrieNode48

theorem TrieLeaf.fromBytes_writeBytes {leaf : TrieLeaf} (hpath : leaf.path.length ≤ TRIEPATH_MAX_LEN)
    (rest : Bytes) : TrieLeaf.fromBytes (leaf.writeBytes ++ rest) = ok (leaf, rest) := by
  have hdata : leaf.data.bytes.length = MARF_VALUE_ENCODED_SIZE := leaf.data.length_bytes
  have hbytes : leaf.writeBytes ++ rest =
      TrieNodeID.Leaf :: (writePathToBytes leaf.path ++ (leaf.data.bytes ++ rest)) := by
    simp [TrieLeaf.writeBytes]
  rw [hbytes, TrieLeaf.fromBytes]
  simp only [show (clearBackptr TrieNodeID.Leaf != TrieNodeID.Leaf) = false by decide,
    Bool.false_eq_true, if_false, pathFromBytes_writePathToBytes hpath, ok_bind,
    List.take_left' hdata, dif_pos hdata, List.drop_left' hdata]

/-! ### Byte lengths -/

theorem getPathByteLen_eq {path : List UInt8} (hpath : path.length ≤ TRIEPATH_MAX_LEN) :
    getPathByteLen path = ok (writePathToBytes path).length := by
  have hlt : path.length < 255 := by
    unfold TRIEPATH_MAX_LEN at hpath
    omega
  rw [getPathByteLen, if_pos hlt, writePathToBytes, List.length_cons, Nat.add_comm]

theorem nodeByteLen_eq (id : UInt8) (ptrs : List TriePtr) {path : List UInt8}
    (hpath : path.length ≤ TRIEPATH_MAX_LEN) :
    nodeByteLen ptrs path = ok (writeNodeBytes id ptrs path).length := by
  rw [nodeByteLen, getPathByteLen_eq hpath, ok_bind, writeNodeBytes, List.length_append,
    List.length_append, length_writePtrsToBytes, getPtrsByteLen, List.length_singleton,
    Nat.mul_comm TRIEPTR_SIZE]

theorem TrieNode48.byteLen_eq {node : TrieNode48} (hpath : node.path.length ≤ TRIEPATH_MAX_LEN) :
    node.byteLen = ok node.writeBytes.length := by
  rw [TrieNode48.byteLen, getPathByteLen_eq hpath, ok_bind, TrieNode48.writeBytes]
  simp only [List.length_append, length_writePtrsToBytes, getPtrsByteLen, List.length_singleton,
    List.length_map, node.length_indexes, Nat.mul_comm TRIEPTR_SIZE]

theorem TrieLeaf.byteLen_eq {leaf : TrieLeaf} (hpath : leaf.path.length ≤ TRIEPATH_MAX_LEN) :
    leaf.byteLen = ok leaf.writeBytes.length := by
  rw [TrieLeaf.byteLen, getPathByteLen_eq hpath, ok_bind, TrieLeaf.writeBytes]
  simp only [List.length_append, List.length_singleton]

theorem TrieNodeType.byteLen_eq {node : TrieNodeType} (hpath : node.path.length ≤ TRIEPATH_MAX_LEN) :
    node.byteLen = ok node.writeBytes.length := by
  cases node with
  | node4 data => exact nodeByteLen_eq _ _ hpath
  | node16 data => exact nodeByteLen_eq _ _ hpath
  | node48 data => exact TrieNode48.byteLen_eq hpath
  | node256 data => exact nodeByteLen_eq _ _ hpath
  | leaf data => exact TrieLeaf.byteLen_eq hpath

/-- `get_node_byte_len` is the number of bytes `write_nodetype_bytes` writes. -/
theorem getNodeByteLen_eq {node : TrieNodeType} (hash : TrieHash)
    (hpath : node.path.length ≤ TRIEPATH_MAX_LEN) :
    getNodeByteLen node = ok (writeNodetypeBytes node hash).length := by
  rw [getNodeByteLen, TrieNodeType.byteLen_eq hpath, ok_bind, writeNodetypeBytes, List.length_append,
    hash.length_bytes]
  rfl

/-! ### `read_nodetype` after `write_nodetype_bytes` -/

/-- The body `read_nodetype` reads after the hash, by the pointer's id. -/
theorem readNodetype_of_body {f rest : Bytes} {ptr : TriePtr} {hash : TrieHash}
    (hseek : f.drop ptr.ptr.toNat = hash.bytes ++ rest) :
    readNodetype f ptr = (if ptr.id = TrieNodeID.Node4 then do
        let (node, _) ← TrieNode4.fromBytes rest
        ok (.node4 node, hash)
      else if ptr.id = TrieNodeID.Node16 then do
        let (node, _) ← TrieNode16.fromBytes rest
        ok (.node16 node, hash)
      else if ptr.id = TrieNodeID.Node48 then do
        let (node, _) ← TrieNode48.fromBytes rest
        ok (.node48 node, hash)
      else if ptr.id = TrieNodeID.Node256 then do
        let (node, _) ← TrieNode256.fromBytes rest
        ok (.node256 node, hash)
      else if ptr.id = TrieNodeID.Leaf then do
        let (node, _) ← TrieLeaf.fromBytes rest
        ok (.leaf node, hash)
      else err (.corruptionError "read_node_type: Unknown trie node type")) := by
  rw [readNodetype, hseek, readHashBytes_append, ok_bind]

/-- What the round trip asks of a node: a path that fits in `TRIEPATH_MAX_LEN`
bytes, and an index array consistent with the slots if it is a `TrieNode48`. -/
structure TrieNodeType.Encodable (node : TrieNodeType) : Prop where
  path_le : node.path.length ≤ TRIEPATH_MAX_LEN
  consistent : ∀ data, node = .node48 data → data.Consistent

/-- An encodable node is read back with its hash at a pointer of its id to where
it was written, whatever stands before and after it. -/
theorem readNodetype_append_writeNodetypeBytes {node : TrieNodeType} (hash : TrieHash)
    (henc : node.Encodable) (pre rest : Bytes) {ptr : TriePtr} (hid : ptr.id = node.id)
    (hoff : ptr.ptr.toNat = pre.length) :
    readNodetype (pre ++ writeNodetypeBytes node hash ++ rest) ptr = ok (node, hash) := by
  have hseek : (pre ++ writeNodetypeBytes node hash ++ rest).drop ptr.ptr.toNat =
      hash.bytes ++ (node.writeBytes ++ rest) := by
    rw [hoff, List.append_assoc, List.drop_left, writeNodetypeBytes, List.append_assoc]
  have hpath := henc.path_le
  rw [readNodetype_of_body hseek, hid]
  -- each kind's id selects its own decoder in the chain of tests
  cases node with
  | node4 data =>
    rw [TrieNodeType.id, if_pos rfl, TrieNodeType.writeBytes, TrieNode4.fromBytes,
      ScanNode.fromBytes_writeNodeBytes data (by decide) rfl hpath rest, ok_bind]
  | node16 data =>
    rw [TrieNodeType.id, if_neg (by decide), if_pos rfl, TrieNodeType.writeBytes,
      TrieNode16.fromBytes, ScanNode.fromBytes_writeNodeBytes data (by decide) rfl hpath rest, ok_bind]
  | node48 data =>
    rw [TrieNodeType.id, if_neg (by decide), if_neg (by decide), if_pos rfl, TrieNodeType.writeBytes,
      TrieNode48.fromBytes_writeBytes (henc.consistent data rfl) hpath rest, ok_bind]
  | node256 data =>
    rw [TrieNodeType.id, if_neg (by decide), if_neg (by decide), if_neg (by decide), if_pos rfl,
      TrieNodeType.writeBytes, TrieNode256.fromBytes_writeNodeBytes data hpath rest, ok_bind]
  | leaf data =>
    rw [TrieNodeType.id, if_neg (by decide), if_neg (by decide), if_neg (by decide), if_neg (by decide),
      if_pos rfl, TrieNodeType.writeBytes, TrieLeaf.fromBytes_writeBytes hpath rest, ok_bind]

/-- Reading a node back: a node whose path fits in `TRIEPATH_MAX_LEN` bytes, and
whose index array is consistent if it is a `TrieNode48`, is read back with its
hash by `read_nodetype` at a pointer of its id to where it was written, whatever
stands before and after it; and `get_node_byte_len` counts the bytes written. -/
theorem readNodetype_writeNodetypeBytes {node : TrieNodeType} (hash : TrieHash)
    (hpath : node.path.length ≤ TRIEPATH_MAX_LEN)
    (h48 : ∀ data, node = .node48 data → data.Consistent)
    (pre rest : Bytes) {ptr : TriePtr} (hid : ptr.id = node.id) (hoff : ptr.ptr.toNat = pre.length) :
    readNodetype (pre ++ writeNodetypeBytes node hash ++ rest) ptr = ok (node, hash) ∧
      getNodeByteLen node = ok (writeNodetypeBytes node hash).length :=
  ⟨readNodetype_append_writeNodetypeBytes hash ⟨hpath, h48⟩ pre rest hid hoff,
    getNodeByteLen_eq hash hpath⟩

theorem readNodetype_writeNodetypeBytes_new_node48 :
    readNodetype ([1, 2, 3] ++ writeNodetypeBytes (.node48 (TrieNode48.new [5, 6]))
        ⟨List.replicate 32 7, List.length_replicate⟩ ++ [9]) ⟨TrieNodeID.Node48, 0, 3, 0⟩ =
      ok (.node48 (TrieNode48.new [5, 6]), ⟨List.replicate 32 7, List.length_replicate⟩) ∧
    getNodeByteLen (.node48 (TrieNode48.new [5, 6])) =
      ok (writeNodetypeBytes (.node48 (TrieNode48.new [5, 6]))
        ⟨List.replicate 32 7, List.length_replicate⟩).length :=
  readNodetype_writeNodetypeBytes _ (by decide)
    (fun _ h => by injection h with h; exact h ▸ TrieNode48.new_consistent _) [1, 2, 3] [9] rfl rfl

end BlockstackCore
