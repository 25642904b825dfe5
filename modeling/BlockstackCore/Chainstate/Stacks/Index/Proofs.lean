import BlockstackCore.Library.Outcome

/-!
# Merkle proofs of the MARF

`TrieMerkleProof::verify_proof` (`chainstate/stacks/index/proofs.rs`) checks a
proof that a MARF maps a path to a value under a root hash. A proof is a list
of items: a segment proof (a leaf, or the nodes of one trie from a node up to
its root), then a shunt proof (`Shunt` items that chain a trie's root to the
roots of its ancestors), then the next segment, and so on. The verifier first
checks the shape (`is_proof_well_formed`), then recomputes hashes along the
proof, crossing from one trie to the next through `root_to_block`.

The hash functions (SHA-512/256 over consensus bytes) are parameters. Hashes,
paths, values and block hashes are byte strings of their fixed lengths.
Helpers that return `Option<TrieHash>` and may also panic return an
`Outcome Unit TrieHash`, whose error is `None`. In the body of `verify_proof`
an early `return b` is the error `b`. An `assert!`, an index out of bounds
and an `i64` overflow (a panic in a debug build) are `panic`.

The loops over the proof that advance an index by at least one item per turn
are recursions on a fuel of the proof's length; the fuel never runs out
before the index reaches the end.
-/

namespace BlockstackCore

open Outcome

structure TrieHash where
  bytes : List UInt8
  length_bytes : bytes.length = 32
  deriving DecidableEq, Hashable, Repr

structure BlockHeaderHash where
  bytes : List UInt8
  length_bytes : bytes.length = 32
  deriving DecidableEq, Hashable, Repr

/-- `BlockHeaderHash([b; 32])`. -/
def BlockHeaderHash.replicate (b : UInt8) : BlockHeaderHash := ⟨List.replicate 32 b, List.length_replicate⟩

structure MARFValue where
  bytes : List UInt8
  length_bytes : bytes.length = 40
  deriving DecidableEq, Repr

structure TriePath where
  bytes : List UInt8
  length_bytes : bytes.length = 32
  deriving DecidableEq, Repr

/-- `TrieHash(bhh.0)`: block header hashes are 32 bytes long. -/
def TrieHash.ofBlockHeaderHash (bhh : BlockHeaderHash) : TrieHash := ⟨bhh.bytes, bhh.length_bytes⟩

structure TrieLeaf where
  path : List UInt8
  data : MARFValue
  deriving DecidableEq, Repr

structure ProofTriePtr where
  id : UInt8
  chr : UInt8
  backBlock : BlockHeaderHash
  deriving DecidableEq, Repr

structure ProofTrieNode where
  id : UInt8
  path : List UInt8
  ptrs : List ProofTriePtr
  deriving DecidableEq, Repr

/-- `TrieNodeID::Empty`. -/
def TrieNodeID.Empty : UInt8 := 0

inductive TrieMerkleProofType where
  | node4 (chr : UInt8) (node : ProofTrieNode) (hashes : Vector TrieHash 3)
  | node16 (chr : UInt8) (node : ProofTrieNode) (hashes : Vector TrieHash 15)
  | node48 (chr : UInt8) (node : ProofTrieNode) (hashes : Vector TrieHash 47)
  | node256 (chr : UInt8) (node : ProofTrieNode) (hashes : Vector TrieHash 255)
  | leaf (chr : UInt8) (node : TrieLeaf)
  | shunt (idx : Int64) (hashes : List TrieHash)
  deriving DecidableEq, Repr

namespace TrieMerkleProofType

def isShunt : TrieMerkleProofType → Bool
  | .shunt _ _ => true
  | _ => false

/-- A shunt item of the tail of a shunt proof, whose index is not 0. -/
def isTailShunt : TrieMerkleProofType → Bool
  | .shunt idx _ => idx != 0
  | _ => false

end TrieMerkleProofType

/-- The hash functions of the trie. -/
structure TrieHashing where
  /-- `get_leaf_hash` -/
  leafHash : TrieLeaf → TrieHash
  /-- `get_node_hash(node, child_hashes, &())` -/
  nodeHash : ProofTrieNode → List TrieHash → TrieHash
  /-- `TrieHash::from_data_array` -/
  fromDataArray : List TrieHash → TrieHash

namespace TrieMerkleProof

variable (hashing : TrieHashing)

/-- `j = start; while j < proof.len() && p(proof[j]) { j += 1 }`: the scans
that find where a segment, a run of shunts or a shunt tail ends. -/
def scanWhile (proof : List TrieMerkleProofType) (p : TrieMerkleProofType → Bool) (start : Nat) :
    Nat :=
  start + ((proof.drop start).takeWhile p).length

/-- `&proof[i..j]`, at bounds `i ≤ j ≤ proof.len()` wherever it is taken. -/
def slice (proof : List TrieMerkleProofType) (i j : Nat) : List TrieMerkleProofType :=
  (proof.drop i).take (j - i)

/-- `idx - 1` on `i64`, which overflows at `i64::MIN`. -/
def predIdx (idx : Int64) : Outcome Unit Int :=
  if idx == Int64.minValue then panic else ok (idx.toInt - 1)

/-- The loop shared by `next_shunt_hash` and `verify_shunt_proof_junction`:
for `i` in `0..hashes.len()+1`, put `hash` at position `idx - 1` and the
given hashes, in order, everywhere else. -/
def spliceHash (idx : Int64) (hash : TrieHash) (hashes : List TrieHash) (allHashes : List TrieHash) :
    Outcome Unit (List TrieHash) := do
  let (allHashes, _) ← (List.range (hashes.length + 1)).foldlM
    (fun (allHashes, hashIdx) i => do
      if (← predIdx idx) == (i : Int) then pure (allHashes ++ [hash], hashIdx)
      else
        match hashes[hashIdx]? with
        | none => err ()
        | some h => pure (allHashes ++ [h], hashIdx + 1))
    (allHashes, 0)
  pure allHashes

/-- `next_shunt_hash`. The source tests `idx == 0` at the top of every turn of
its loop, which runs at least once. -/
def nextShuntHash (hash : TrieHash) (idx : Int64) (hashes : List TrieHash) : Outcome Unit TrieHash :=
  if idx == 0 then err ()
  else do
    let allHashes ← spliceHash idx hash hashes []
    pure (hashing.fromDataArray allHashes)

def verifyShuntProofHead (nodeRootHash : TrieHash) : TrieMerkleProofType → Option TrieHash
  | .shunt idx hashes =>
    if idx != 0 then none
    -- a leaf from the first block: its shunt proof has no hashes
    else if hashes.length == 0 then some nodeRootHash
    else some (hashing.fromDataArray (nodeRootHash :: hashes))
  | _ => none

def verifyShuntProofTail (initialHash : TrieHash) (shuntProof : List TrieMerkleProofType) :
    Outcome Unit TrieHash :=
  shuntProof.foldlM
    (fun hash proofNode =>
      match proofNode with
      | .shunt idx hashes => if idx == 0 then err () else nextShuntHash hashing hash idx hashes
      | _ => err ())
    initialHash

def verifyShuntProofJunction (nodeRootHash penultimateTrieHash : TrieHash) :
    TrieMerkleProofType → Outcome Unit TrieHash
  | .shunt idx hashes =>
    if idx == 0 then err ()
    else do
      let allHashes ← spliceHash idx penultimateTrieHash hashes [nodeRootHash]
      pure (hashing.fromDataArray allHashes)
  | _ => err ()

/-- `get_segment_proof_hash`, with its two `assert!`s. -/
def getSegmentProofHash (node : ProofTrieNode) (hash : TrieHash) (chr : UInt8)
    (hashes : List TrieHash) (count : Nat) : Outcome Unit TrieHash := do
  if node.ptrs.length != count then panic
  else if !(count > 0 && hashes.length == count - 1) then panic
  else
    let (allHashes, _) ← node.ptrs.foldlM
      (fun (allHashes, ih) (childPtr : ProofTriePtr) =>
        if childPtr.id != TrieNodeID.Empty && childPtr.chr == chr then ok (allHashes ++ [hash], ih)
        else
          match hashes[ih]? with
          | none => err ()
          | some h => ok (allHashes ++ [h], ih + 1))
      ([], 0)
    if allHashes.length != count then err ()
    else ok (hashing.nodeHash node allHashes)

def verifySegmentProof (proof : List TrieMerkleProofType) (nodeHash : TrieHash) :
    Outcome Unit TrieHash :=
  proof.foldlM
    (fun hash proofNode =>
      match proofNode with
      -- the leaf hash has no child hashes to check
      | .leaf _ node => ok (hashing.leafHash node)
      | .node4 chr node hashes => getSegmentProofHash hashing node hash chr hashes.toList 4
      | .node16 chr node hashes => getSegmentProofHash hashing node hash chr hashes.toList 16
      | .node48 chr node hashes => getSegmentProofHash hashing node hash chr hashes.toList 48
      | .node256 chr node hashes => getSegmentProofHash hashing node hash chr hashes.toList 256
      | .shunt _ _ => err ())
    nodeHash

/-- The parts of the path that one item of a segment proof encodes. -/
def pathParts : TrieMerkleProofType → Option (List (List UInt8))
  | .leaf _ node => some [node.path]
  | .node4 chr node _ => some [[chr], node.path]
  | .node16 chr node _ => some [[chr], node.path]
  | .node48 chr node _ => some [[chr], node.path]
  | .node256 chr node _ => some [[chr], node.path]
  | .shunt _ _ => none

/-- `get_segment_proof_path_prefix`: the parts, last first. -/
def getSegmentProofPathPrefix (segmentProof : List TrieMerkleProofType) : Option (List UInt8) := do
  let parts ← segmentProof.mapM pathParts
  pure parts.flatten.reverse.flatten

/-- The loop of `is_proof_well_formed`, from item `i`, with the first
segment's path `pathBytes`. -/
def wellFormedFrom (proof : List TrieMerkleProofType) (expectedPath : TriePath) :
    Nat → Nat → List UInt8 → Bool
  | 0, _, _ => true
  | fuel + 1, i, pathBytes =>
    if i < proof.length then
      -- next segment proof
      let j := scanWhile proof (fun p => !p.isShunt) (i + 1)
      let segmentProof := slice proof i j
      let checked : Option (List UInt8) :=
        if i == 0 then
          -- the first path bytes must be the expected path
          match getSegmentProofPathPrefix segmentProof with
          | some bytes => if expectedPath.bytes != bytes then none else some bytes
          | none => none
        else
          -- this segment's path must be a prefix of the first one
          match getSegmentProofPathPrefix segmentProof with
          | some newPathBytes =>
            if pathBytes.length < newPathBytes.length then none
            else if !newPathBytes.isPrefixOf pathBytes then none
            else some pathBytes
          | none => none
      match checked with
      | none => false
      | some pathBytes =>
        -- next shunt proof
        if j ≥ proof.length then false
        else wellFormedFrom proof expectedPath fuel (scanWhile proof TrieMerkleProofType.isShunt (j + 1))
          pathBytes
    else true

def isProofWellFormed (proof : List TrieMerkleProofType) (expectedPath : TriePath) : Bool :=
  if proof.length == 0 then false
  else
    match proof.head? with
    | some (.leaf _ _) => wellFormedFrom proof expectedPath proof.length 0 []
    | _ => false

section Verify

variable (proof : List TrieMerkleProofType) (rootHash : TrieHash)
  (rootToBlock : Std.HashMap TrieHash BlockHeaderHash)

/-- The next node hash is the hash of the block from which the trie's root came. -/
def blockOfRoot (trieHash : TrieHash) : Outcome Bool TrieHash :=
  ofOption false ((rootToBlock[trieHash]?).map TrieHash.ofBlockHeaderHash)

/-- The `while i < proof.len()` loop of `verify_proof`: a segment proof, a
shunt tail and a junction per turn. -/
def verifyFrom : Nat → Nat → TrieHash → TrieHash → Outcome Bool Bool
  | 0, _, trieHash, _ => ok (rootHash == trieHash)
  | fuel + 1, i, trieHash, nodeHash =>
    if i < proof.length then do
      -- find the next segment proof
      let j := scanWhile proof (fun p => !p.isShunt) (i + 1)
      let nextNodeRootHash ← (verifySegmentProof hashing (slice proof i j) nodeHash).mapErr
        fun _ => false
      if j ≥ proof.length then err false
      -- find the tail end
      let k := scanWhile proof TrieMerkleProofType.isTailShunt j - 1
      if k < j then err false
      let penultimateTrieHash ← (verifyShuntProofTail hashing trieHash (slice proof j k)).mapErr
        fun _ => false
      if k ≥ proof.length then err false
      let junction ← expect proof[k]?
      let trieHash ← (verifyShuntProofJunction hashing nextNodeRootHash penultimateTrieHash
        junction).mapErr fun _ => false
      let nodeHash ← blockOfRoot rootToBlock trieHash
      -- the root hash, found early: the rest of the proof is not read
      if trieHash == rootHash then ok (rootHash == trieHash)
      else verifyFrom fuel (k + 1) trieHash nodeHash
    else ok (rootHash == trieHash)

/-- The body of `verify_proof`. -/
def verifyProofBody (path : TriePath) (value : MARFValue) : Outcome Bool Bool := do
  if !isProofWellFormed proof path then err false
  let (nodeHash, nodeData) ← match proof.head? with
    | some (.leaf _ node) => ok (hashing.leafHash node, node.data)
    | _ => panic
  -- the proof must be for this value
  if nodeData != value then err false
  -- the very first segment proof
  let j := scanWhile proof (fun p => !p.isShunt) 1
  let nodeRootHash ← (verifySegmentProof hashing (slice proof 0 j) nodeHash).mapErr fun _ => false
  if j ≥ proof.length then err false
  -- the very first shunt proof head
  let head ← expect proof[j]?
  let trieHash ← ofOption false (verifyShuntProofHead hashing nodeRootHash head)
  -- done: no further shunts
  if j + 1 ≥ proof.length then err true
  let nodeHash ← blockOfRoot rootToBlock trieHash
  -- the next item must start a segment proof
  let next ← expect proof[j + 1]?
  if next.isShunt then err false
  verifyFrom hashing proof rootHash rootToBlock proof.length (j + 1) trieHash nodeHash

end Verify

/-- `verify_proof`: the answer, or `none` for a panic. -/
def verifyProof (proof : List TrieMerkleProofType) (path : TriePath) (value : MARFValue)
    (rootHash : TrieHash) (rootToBlock : Std.HashMap TrieHash BlockHeaderHash) : Option Bool :=
  match verifyProofBody hashing proof rootHash rootToBlock path value with
  | .ok b => some b
  | .err b => some b
  | .panic => none

/-- The verifier takes three proofs wrongly. A leaf whose path and value are
the ones asked about, followed by one empty shunt head, is accepted under
every root hash: after the first shunt head, when the proof ends, the
verifier returns `true` without comparing the hash it computed with
`root_hash`. A segment node with fewer child pointers than its kind fails the
`assert!` of `get_segment_proof_hash`. A shunt tail with index `i64::MIN`
overflows at `idx - 1`. -/
theorem verifyProof_accepts_any_root_or_panics (hashing : TrieHashing) (chr : UInt8)
    (path : TriePath) (value : MARFValue) (rootHash : TrieHash)
    (rootToBlock : Std.HashMap TrieHash BlockHeaderHash) (node : ProofTrieNode)
    (hashes : Vector TrieHash 3) (bhh : BlockHeaderHash) :
    let leaf : TrieLeaf := ⟨path.bytes, value⟩
    let zeroPath : TriePath := ⟨List.replicate 32 0, by simp⟩
    verifyProof hashing [.leaf chr leaf, .shunt 0 []] path value rootHash rootToBlock = some true ∧
      verifyProof hashing
        [.leaf 0 ⟨List.replicate 31 0, value⟩, .node4 0 { node with path := [], ptrs := [] } hashes,
          .shunt 0 []]
        zeroPath value rootHash rootToBlock = none ∧
      verifyProof hashing
        [.leaf 0 leaf, .shunt 0 [], .leaf 0 leaf, .shunt Int64.minValue [], .shunt 1 []]
        path value rootHash ((∅ : Std.HashMap TrieHash BlockHeaderHash).insert (hashing.leafHash leaf) bhh)
        = none := by
  intro leaf zeroPath
  refine ⟨?_, ?_, ?_⟩
  · simp [verifyProof, verifyProofBody, isProofWellFormed, wellFormedFrom, scanWhile, slice,
      getSegmentProofPathPrefix, pathParts, verifySegmentProof, verifyShuntProofHead, leaf,
      TrieMerkleProofType.isShunt]
  · simp [verifyProof, verifyProofBody, isProofWellFormed, wellFormedFrom, scanWhile, slice,
      getSegmentProofPathPrefix, pathParts, verifySegmentProof, getSegmentProofHash, zeroPath,
      TrieMerkleProofType.isShunt]
  · have hprefix : path.bytes.isPrefixOf path.bytes = true :=
      List.isPrefixOf_iff_prefix.mpr (List.prefix_refl _)
    have hmin : Int64.minValue ≠ 0 := by decide
    simp [hmin, verifyProof, verifyProofBody, isProofWellFormed, wellFormedFrom, scanWhile, slice, hprefix,
      getSegmentProofPathPrefix, pathParts, verifySegmentProof, verifyShuntProofHead, blockOfRoot,
      verifyFrom, verifyShuntProofTail, nextShuntHash, spliceHash, predIdx, leaf,
      TrieMerkleProofType.isShunt, TrieMerkleProofType.isTailShunt, List.takeWhile_cons]

end TrieMerkleProof

end BlockstackCore
