import BlockstackCore.Library.Pairing
import BlockstackCore.Library.Outcome

/-!
# Merkle trees of tagged hashes

`util/hash.rs`: `MerkleTree::new` hashes each datum into a leaf
(`H(0x00 ++ data)`), repeats the last leaf of an odd row, and hashes pairs
into the next row (`H(0x01 ++ left ++ right)`) until one hash is left, the
root; every row but the last is made even the same way. `path` walks from a
datum's leaf up to the root collecting siblings, and `path_verify` folds a
datum with a path back to a root.

The hash is a parameter (`MerkleHashFunc`). The results hold for an ideal
one (`IdealHash`): `from_tagged_data` is injective, and the bytes of two
hashes side by side come apart, as they do for hashes of one fixed width.
The root then determines a list of distinct data (`root_injective`), every
datum has a path that verifies (`path_verifies`), and whatever verifies
against the root is a datum of the tree (`mem_of_pathVerify`).

`find_hash_index` and `path` return `Option`s and may panic; they return an
`Outcome Unit _`, whose error is `None`. `find_siblings` can only panic: its
`none` is the panic.
-/

namespace BlockstackCore

open Pairing

/-- `MerkleHashFunc`: a hash made from a tag and data, and its bytes. -/
class MerkleHashFunc (H : Type) where
  empty : H
  fromTaggedData : UInt8 → List UInt8 → H
  bits : H → List UInt8

def MERKLE_PATH_LEAF_TAG : UInt8 := 0x00

def MERKLE_PATH_NODE_TAG : UInt8 := 0x01

inductive MerklePathOrder where
  | left
  | right
  deriving DecidableEq, Repr

structure MerklePathPoint (H : Type) where
  order : MerklePathOrder
  hash : H
  deriving DecidableEq, Repr

abbrev MerklePath (H : Type) := List (MerklePathPoint H)

/-- `MerkleTree`: `nodes[0]` is the row of leaves, the last row holds the root. -/
structure MerkleTree (H : Type) where
  nodes : List (List H)

namespace MerkleTree

open MerkleHashFunc

variable {H : Type} [MerkleHashFunc H]

def getLeafHash (leafData : List UInt8) : H := fromTaggedData MERKLE_PATH_LEAF_TAG leafData

def getNodeHash (left right : H) : H := fromTaggedData MERKLE_PATH_NODE_TAG (bits left ++ bits right)

/-- The `loop` of `new` from the row `nodes[i]`, of two hashes or more: the
rows above it. A row of one hash is the root; any other row is made even by
repeating its last hash. -/
def buildRows (row : List H) (h : 2 ≤ row.length) : List (List H) :=
  let rowHashes := pairMap getNodeHash row
  if hone : rowHashes.length = 1 then [rowHashes]
  else
    padEven rowHashes :: buildRows (padEven rowHashes) (by
      rw [length_padEven, length_pairMap]
      rw [length_pairMap] at hone
      omega)
termination_by row.length
decreasing_by
  rw [length_padEven, length_pairMap]
  rw [length_pairMap] at hone
  omega

/-- `MerkleTree::new`. -/
def new (data : List (List UInt8)) : MerkleTree H :=
  if hdata : data.length = 0 then ⟨[]⟩
  else
    -- force even
    let leafHashes := padEven (data.map getLeafHash)
    ⟨leafHashes :: buildRows leafHashes (by
      rw [length_padEven, List.length_map]
      omega)⟩

/-- `root`: the first hash of the last row, or `H::empty()`. -/
def root (self : MerkleTree H) : H :=
  match self.nodes.getLast? with
  | some row => row.head?.getD empty
  | none => empty

/-- One step of `path_verify`: the sibling goes on the side the path says. -/
def verifyStep (hashAcc : H) (point : MerklePathPoint H) : H :=
  match point.order with
  | .left => getNodeHash hashAcc point.hash
  | .right => getNodeHash point.hash hashAcc

section Path

variable [DecidableEq H]

/-- `find_hash_index`: the first place of `hash` in row `rowIndex`. -/
def findHashIndex (self : MerkleTree H) (hash : H) (rowIndex : Nat) : Outcome Unit Nat :=
  match self.nodes[rowIndex]? with
  | none => .panic
  | some row => .ofOption () (row.findIdx? (· == hash))

/-- `find_siblings`: the pair of hashes that holds the one at `hashIndex`. -/
def findSiblings (self : MerkleTree H) (rowIndex hashIndex : Nat) : Option (H × H) :=
  if rowIndex = self.nodes.length - 1 then none
  else do
    let row ← self.nodes[rowIndex]?
    if hashIndex % 2 = 0 then
      -- a left sibling, which needs a right one after it
      pure (← row[hashIndex]?, ← row[hashIndex + 1]?)
    else pure (← row[hashIndex - 1]?, ← row[hashIndex]?)

/-- The loop of `path` over the rows `is`, below the root. -/
def pathFrom (self : MerkleTree H) : List Nat → MerklePath H → H → Nat → Outcome Unit (MerklePath H)
  | [], path, _, _ => .ok path
  | i :: is, path, nextHash, hashIndex => do
    let (left, right) ← Outcome.expect (self.findSiblings i hashIndex)
    let path := if nextHash = left then path ++ [⟨.left, right⟩] else path ++ [⟨.right, left⟩]
    let nextHash := getNodeHash left right
    let hashIndex ← self.findHashIndex nextHash (i + 1)
    self.pathFrom is path nextHash hashIndex

/-- `path`: the siblings from a datum's leaf up to the root. -/
def path (self : MerkleTree H) (data : List UInt8) : Outcome Unit (MerklePath H) := do
  let leafHash := getLeafHash data
  let hashIndex ← self.findHashIndex leafHash 0
  self.pathFrom (List.range (self.nodes.length - 1)) [] leafHash hashIndex

/-- `path_verify`. -/
def pathVerify (data : List UInt8) (path : MerklePath H) (root : H) : Bool :=
  if path.length < 1 then false
  else decide (path.foldl verifyStep (getLeafHash data) = root)

end Path

/-! ### The ideal hash -/

/-- The ideal hash: `from_tagged_data` is injective, and two hashes side by
side have bytes that come apart again, as those of one fixed width do. -/
structure IdealHash (H : Type) [MerkleHashFunc H] : Prop where
  fromTaggedData_injective : Function.Injective2 (fromTaggedData : UInt8 → List UInt8 → H)
  bits_append_injective : Function.Injective2 fun a b : H => bits a ++ bits b

section Ideal

variable (hH : IdealHash H)
include hH

theorem getLeafHash_injective : Function.Injective (getLeafHash : List UInt8 → H) :=
  fun _ _ h => (hH.fromTaggedData_injective h).2

theorem getNodeHash_injective2 : Function.Injective2 (getNodeHash : H → H → H) :=
  fun _ _ _ _ h => hH.bits_append_injective (hH.fromTaggedData_injective h).2

/-- The tags keep leaves and nodes apart. -/
theorem getLeafHash_ne_getNodeHash (data : List UInt8) (a b : H) : getLeafHash data ≠ getNodeHash a b := by
  intro h
  have htag := (hH.fromTaggedData_injective h).1
  simp [MERKLE_PATH_LEAF_TAG, MERKLE_PATH_NODE_TAG] at htag

end Ideal

/-! ### Levels and the loop of `new` -/

/-- A hash at height `k`: a leaf at 0, the node of two at `k` at `k + 1`. -/
inductive Level : Nat → H → Prop
  | leaf (data : List UInt8) : Level 0 (getLeafHash data)
  | node {k : Nat} {a b : H} : Level k a → Level k b → Level (k + 1) (getNodeHash a b)

/-- Under the ideal hash, a hash has one height. -/
theorem Level.unique (hH : IdealHash H) {k : Nat} {h : H} (h₁ : Level k h) :
    ∀ {k' h'}, Level k' h' → h = h' → k = k' := by
  induction h₁ with
  | leaf data =>
    intro k' h' h₂ heq
    cases h₂ with
    | leaf => rfl
    | node => exact absurd heq (getLeafHash_ne_getNodeHash hH _ _ _)
  | node ha hb iha ihb =>
    intro k' h' h₂ heq
    cases h₂ with
    | leaf => exact absurd heq.symm (getLeafHash_ne_getNodeHash hH _ _ _)
    | node ha' hb' =>
      -- equal nodes have equal children, which have equal heights
      obtain ⟨rfl, rfl⟩ := getNodeHash_injective2 hH heq
      rw [iha ha' rfl]

/-- A row above a row of height `k` is of height `k + 1`. -/
theorem level_of_mem_pairMap {k : Nat} {row : List H} (hrow : ∀ h ∈ row, Level k h) :
    ∀ h ∈ pairMap getNodeHash row, Level (k + 1) h := by
  intro h hmem
  obtain ⟨a, ha, b, hb, rfl⟩ := exists_of_mem_pairMap hmem
  exact .node (hrow a ha) (hrow b hb)

/-- The loop of `new` from a row ends at the root `t`. -/
inductive Climbs : List H → H → Prop
  | root {row : List H} {t : H} : pairMap getNodeHash row = [t] → Climbs row t
  | up {row : List H} {t : H} : (pairMap getNodeHash row).length ≠ 1 →
      Climbs (padEven (pairMap getNodeHash row)) t → Climbs row t

/-- The root is above the row it climbs from. -/
theorem Climbs.level {row : List H} {t : H} (h : Climbs row t) :
    ∀ {k}, (∀ h ∈ row, Level k h) → ∃ m, k < m ∧ Level m t := by
  induction h with
  | root hroot =>
    intro k hrow
    exact ⟨k + 1, Nat.lt_succ_self k, level_of_mem_pairMap hrow _ (by rw [hroot]; simp)⟩
  | up _ _ ih =>
    intro k hrow
    have hup : ∀ h ∈ padEven (pairMap getNodeHash _), Level (k + 1) h := fun h hmem =>
      level_of_mem_pairMap hrow h (mem_padEven.mp hmem)
    obtain ⟨m, hm, hlevel⟩ := ih hup
    exact ⟨m, by omega, hlevel⟩

/-- A root one level above a row is not a root two levels or more above a
row of the same height. -/
theorem Climbs.not_root_of_up (hH : IdealHash H) {u v : List H} {t : H} {k : Nat}
    (hroot : pairMap getNodeHash (padEven u) = [t]) (hup : Climbs (padEven (pairMap getNodeHash (padEven v))) t)
    (hu : ∀ h ∈ u, Level k h) (hv : ∀ h ∈ v, Level k h) : False := by
  have htop : Level (k + 1) t :=
    level_of_mem_pairMap (fun h hmem => hu h (mem_padEven.mp hmem)) t (by rw [hroot]; simp)
  obtain ⟨m, hm, hlevel⟩ := hup.level fun h hmem =>
    level_of_mem_pairMap (fun h hmem => hv h (mem_padEven.mp hmem)) h (mem_padEven.mp hmem)
  have := htop.unique hH hlevel rfl
  omega

/-- Two rows of distinct hashes of one height that climb to the same root
are equal: they climb the same number of times, and each time the rows
above them are equal. -/
theorem Climbs.inj (hH : IdealHash H) {row : List H} {t : H} (h₁ : Climbs row t) :
    ∀ {u v : List H} {k : Nat}, row = padEven u → Climbs (padEven v) t → u.Nodup → v.Nodup →
      (∀ h ∈ u, Level k h) → (∀ h ∈ v, Level k h) → u = v := by
  have hf := getNodeHash_injective2 hH
  induction h₁ with
  | root hroot =>
    intro u v k hrow h₂ hu hv hlu hlv
    subst hrow
    cases h₂ with
    | root hroot' => exact pairMap_padEven_inj hf hu hv (hroot.trans hroot'.symm)
    | up _ hup => exact (Climbs.not_root_of_up hH hroot hup hlu hlv).elim
  | up _ hup ih =>
    intro u v k hrow h₂ hu hv hlu hlv
    subst hrow
    cases h₂ with
    | root hroot' => exact (Climbs.not_root_of_up hH hroot' hup hlv hlu).elim
    | up _ hup' =>
      -- one level up, the rows above `u` and `v` climb to the same root
      have habove := ih rfl hup' (nodup_pairMap_padEven hf hu) (nodup_pairMap_padEven hf hv)
        (fun h hmem => level_of_mem_pairMap (fun h hmem => hlu h (mem_padEven.mp hmem)) h hmem)
        (fun h hmem => level_of_mem_pairMap (fun h hmem => hlv h (mem_padEven.mp hmem)) h hmem)
      exact pairMap_padEven_inj hf hu hv habove

/-! ### What `new` builds -/

/-- The rows `new` builds above a row end in the one hash the row climbs to. -/
theorem buildRows_climbs (row : List H) (h : 2 ≤ row.length) :
    ∃ t, (buildRows row h).getLast? = some [t] ∧ Climbs row t := by
  fun_induction buildRows row h with
  | case1 row h rowHashes hone =>
    obtain ⟨t, ht⟩ := List.length_eq_one_iff.mp hone
    exact ⟨t, by simp [ht], .root ht⟩
  | case2 row h rowHashes hone ih =>
    obtain ⟨t, hlast, hclimb⟩ := ih
    refine ⟨t, ?_, .up hone hclimb⟩
    rw [List.getLast?_cons, hlast]
    rfl

/-- Two consecutive rows: the lower one has even length, and the upper one
holds the hashes of its pairs. -/
def Linked (lower upper : List H) : Prop :=
  lower.length % 2 = 0 ∧ ∀ h, h ∈ upper ↔ h ∈ pairMap getNodeHash lower

/-- Each row of `rows` is linked to the next. -/
def Tower (rows : List (List H)) : Prop :=
  ∀ {k lower upper}, rows[k]? = some lower → rows[k + 1]? = some upper → Linked lower upper

theorem tower_buildRows (row : List H) (h : 2 ≤ row.length) :
    row.length % 2 = 0 → Tower (row :: buildRows row h) := by
  fun_induction buildRows row h with
  | case1 row h rowHashes hone =>
    intro heven k lower upper hlower hupper
    cases k with
    | zero =>
      simp only [List.getElem?_cons_zero, List.getElem?_cons_succ, Option.some.injEq] at hlower hupper
      subst hlower hupper
      exact ⟨heven, fun _ => Iff.rfl⟩
    | succ k => simp at hupper
  | case2 row h rowHashes hone ih =>
    intro heven k lower upper hlower hupper
    cases k with
    | zero =>
      -- the row above `row` is its pairs' hashes, made even
      simp only [List.getElem?_cons_zero, List.getElem?_cons_succ, Option.some.injEq] at hlower hupper
      subst hlower hupper
      exact ⟨heven, fun _ => mem_padEven⟩
    | succ k => exact ih length_padEven_even (by simpa using hlower) (by simpa using hupper)

theorem new_nodes {data : List (List UInt8)} (hdata : data ≠ []) :
    ∃ h, (new data : MerkleTree H).nodes =
      padEven (data.map getLeafHash) :: buildRows (padEven (data.map getLeafHash)) h := by
  unfold new
  rw [dif_neg (by simpa using hdata)]
  exact ⟨_, rfl⟩

theorem new_leaves {data : List (List UInt8)} (hdata : data ≠ []) :
    (new data : MerkleTree H).nodes[0]? = some (padEven (data.map getLeafHash)) := by
  obtain ⟨_, hnodes⟩ := new_nodes (H := H) hdata
  rw [hnodes]
  rfl

/-- The last row of a tree of data holds its root alone, and the leaves
climb to it. -/
theorem new_root {data : List (List UInt8)} (hdata : data ≠ []) :
    (new data : MerkleTree H).nodes.getLast? = some [(new data : MerkleTree H).root] ∧
      Climbs (padEven (data.map getLeafHash)) (new data : MerkleTree H).root := by
  obtain ⟨h, hnodes⟩ := new_nodes (H := H) hdata
  obtain ⟨t, hlast, hclimb⟩ := buildRows_climbs _ h
  have hlast' : (new data : MerkleTree H).nodes.getLast? = some [t] := by
    rw [hnodes, List.getLast?_cons, hlast]
    rfl
  have hroot : (new data : MerkleTree H).root = t := by
    unfold root
    rw [hlast']
    rfl
  rw [hroot]
  exact ⟨hlast', hclimb⟩

/-- Under the ideal hash, the root of a tree of distinct data determines the
data. -/
theorem root_injective (hH : IdealHash H) {data₁ data₂ : List (List UInt8)} (h₁ : data₁ ≠ []) (h₂ : data₂ ≠ [])
    (hn₁ : data₁.Nodup) (hn₂ : data₂.Nodup) (h : (new data₁ : MerkleTree H).root = (new data₂).root) :
    data₁ = data₂ := by
  have hleaf := getLeafHash_injective hH
  have hlevel : ∀ data : List (List UInt8), ∀ h ∈ data.map getLeafHash, Level 0 (h : H) := by
    intro data h hmem
    obtain ⟨x, -, rfl⟩ := List.mem_map.mp hmem
    exact .leaf x
  have hclimb₁ := (new_root (H := H) h₁).2
  rw [h] at hclimb₁
  have hleaves := hclimb₁.inj hH rfl (new_root h₂).2 (hn₁.map hleaf) (hn₂.map hleaf) (hlevel data₁) (hlevel data₂)
  exact List.map_injective_iff.mpr hleaf hleaves

/-! ### Paths -/

/-- A step of the verifier from one of two siblings is the hash of the pair. -/
theorem verifyStep_exists (hashAcc : H) (point : MerklePathPoint H) :
    ∃ left right, verifyStep hashAcc point = getNodeHash left right ∧ (hashAcc = left ∨ hashAcc = right) := by
  cases horder : point.order with
  | left => exact ⟨hashAcc, point.hash, by simp [verifyStep, horder], .inl rfl⟩
  | right => exact ⟨point.hash, hashAcc, by simp [verifyStep, horder], .inr rfl⟩

theorem exists_getElem?_of_succ {α : Type} {l : List α} {k : Nat} {a : α} (h : l[k + 1]? = some a) :
    ∃ b, l[k]? = some b := by
  have hk : k < l.length := by
    have := (List.getElem?_eq_some_iff.mp h).1
    omega
  exact ⟨l[k], List.getElem?_eq_getElem hk⟩

/-- A hash folded up from a leaf along any path, if it is in a row of the
tree, started from the leaf of a datum of the tree: going down, equal node
hashes have equal children, and a leaf hash is never a node hash. -/
theorem mem_of_foldl_mem (hH : IdealHash H) {rows : List (List H)} (htower : Tower rows)
    {data : List (List UInt8)} (hleaves : rows[0]? = some (padEven (data.map getLeafHash))) {y : List UInt8} :
    ∀ (q : MerklePath H) {k : Nat} {row : List H}, rows[k]? = some row →
      q.foldl verifyStep (getLeafHash y) ∈ row → y ∈ data := by
  -- a hash in a row above the leaves is the hash of two in the row below
  have hnode : ∀ {k row h}, rows[k + 1]? = some row → h ∈ row →
      ∃ lower, rows[k]? = some lower ∧ ∃ a ∈ lower, ∃ b ∈ lower, h = getNodeHash a b := by
    intro k row h hrow hmem
    obtain ⟨lower, hlower⟩ := exists_getElem?_of_succ hrow
    exact ⟨lower, hlower, exists_of_mem_pairMap (((htower hlower hrow).2 h).mp hmem)⟩
  intro q
  induction q using List.reverseRecOn with
  | nil =>
    intro k row hrow hmem
    cases k with
    | zero =>
      rw [hleaves, Option.some.injEq] at hrow
      subst hrow
      obtain ⟨x, hx, hxy⟩ := List.mem_map.mp (mem_padEven.mp hmem)
      rwa [← getLeafHash_injective hH hxy]
    | succ k =>
      obtain ⟨-, -, a, -, b, -, hab⟩ := hnode hrow hmem
      exact absurd hab (getLeafHash_ne_getNodeHash hH _ _ _)
  | append_singleton q point ih =>
    intro k row hrow hmem
    rw [List.foldl_append, List.foldl_cons, List.foldl_nil] at hmem
    obtain ⟨left, right, hstep, hside⟩ := verifyStep_exists (q.foldl verifyStep (getLeafHash y)) point
    rw [hstep] at hmem
    cases k with
    | zero =>
      -- the leaves hold no node hash
      rw [hleaves, Option.some.injEq] at hrow
      subst hrow
      obtain ⟨x, -, hx⟩ := List.mem_map.mp (mem_padEven.mp hmem)
      exact absurd hx (getLeafHash_ne_getNodeHash hH _ _ _)
    | succ k =>
      obtain ⟨lower, hlower, a, ha, b, hb, hab⟩ := hnode hrow hmem
      obtain ⟨rfl, rfl⟩ := getNodeHash_injective2 hH hab
      rcases hside with hside | hside
      · exact ih hlower (hside ▸ ha)
      · exact ih hlower (hside ▸ hb)

theorem tower_new {data : List (List UInt8)} (hdata : data ≠ []) : Tower (new data : MerkleTree H).nodes := by
  obtain ⟨h, hnodes⟩ := new_nodes (H := H) hdata
  rw [hnodes]
  exact tower_buildRows _ h length_padEven_even

/-- Below the last row, in a row linked to the next, `find_siblings` finds
the pair that holds the hash at `hashIndex`, and their node hash is in the
row above. -/
theorem findSiblings_of_linked {self : MerkleTree H} {i hashIndex : Nat} {row upper : List H} {h : H}
    (hi : i ≠ self.nodes.length - 1) (hrow : self.nodes[i]? = some row) (hlink : Linked row upper)
    (hh : row[hashIndex]? = some h) :
    ∃ left right, self.findSiblings i hashIndex = some (left, right) ∧
      getNodeHash left right ∈ upper ∧ (h = left ∨ h = right) := by
  have hlen : hashIndex < row.length := (List.getElem?_eq_some_iff.mp hh).1
  have heven := hlink.1
  -- the pair is the `hashIndex / 2`-th of the row, which has even length
  obtain ⟨j, hj | hj⟩ : ∃ j, hashIndex = 2 * j ∨ hashIndex = 2 * j + 1 := ⟨hashIndex / 2, by omega⟩
  · subst hj
    have hlt : 2 * j + 1 < row.length := by omega
    have hright := List.getElem?_eq_getElem hlt
    refine ⟨h, row[2 * j + 1], ?_, (hlink.2 _).mpr (mem_pairMap hh hright), .inl rfl⟩
    simp [findSiblings, hi, hrow, hh, hright]
  · subst hj
    have hlt : 2 * j < row.length := by omega
    have hleft := List.getElem?_eq_getElem hlt
    have hodd : (2 * j + 1) % 2 = 1 := by omega
    refine ⟨row[2 * j], h, ?_, (hlink.2 _).mpr (mem_pairMap hleft hh), .inr rfl⟩
    simp [findSiblings, hi, hrow, hh, hleft, hodd]

section PathProofs

variable [DecidableEq H]

omit [MerkleHashFunc H] in
/-- `find_hash_index` finds a hash that is in its row. -/
theorem findHashIndex_of_mem {self : MerkleTree H} {i : Nat} {row : List H} {h : H}
    (hrow : self.nodes[i]? = some row) (hmem : h ∈ row) :
    ∃ k, self.findHashIndex h i = .ok k ∧ row[k]? = some h := by
  obtain ⟨k, hk⟩ : ∃ k, row.findIdx? (· == h) = some k := by
    apply Option.isSome_iff_exists.mp
    rw [List.findIdx?_isSome]
    exact List.any_eq_true.mpr ⟨h, hmem, beq_self_eq_true h⟩
  obtain ⟨hlt, hpk, -⟩ := List.findIdx?_eq_some_iff_getElem.mp hk
  refine ⟨k, by simp [findHashIndex, hrow, hk], ?_⟩
  rw [List.getElem?_eq_getElem hlt, beq_iff_eq.mp hpk]

/-- The point `path` records for one of two siblings folds it into their
node hash. -/
theorem verifyStep_recorded {h left right : H} (hside : h = left ∨ h = right) :
    verifyStep h (if h = left then ⟨.left, right⟩ else ⟨.right, left⟩) = getNodeHash left right := by
  by_cases hl : h = left
  · simp [hl, verifyStep]
  · obtain rfl := hside.resolve_left hl
    simp [hl, verifyStep]

/-- The loop of `path` from row `i`, `m` rows below the root, with a path
that folds the leaf to the hash at `hashIndex` of row `i`: it returns a path
that folds the leaf to the root, one point longer for each row. -/
theorem pathFrom_ok {self : MerkleTree H} (htower : Tower self.nodes) {t : H}
    (htop : self.nodes.getLast? = some [t]) {leaf : H} :
    ∀ (m i : Nat) (path : MerklePath H) (nextHash : H) (hashIndex : Nat) (row : List H),
      i + m + 1 = self.nodes.length → self.nodes[i]? = some row → row[hashIndex]? = some nextHash →
      path.foldl verifyStep leaf = nextHash →
      ∃ p, self.pathFrom (List.range' i m) path nextHash hashIndex = .ok p ∧
        p.foldl verifyStep leaf = t ∧ p.length = path.length + m := by
  intro m
  induction m with
  | zero =>
    -- row `i` is the last, and its one hash is the root
    intro i path nextHash hashIndex row hlen hrow hh hfold
    rw [List.getLast?_eq_getElem?, show self.nodes.length - 1 = i by omega, hrow, Option.some.injEq] at htop
    subst htop
    have hroot : nextHash = t := by
      cases hashIndex with
      | zero => simpa using hh.symm
      | succ k => simp at hh
    exact ⟨path, rfl, hfold.trans hroot, rfl⟩
  | succ m ih =>
    intro i path nextHash hashIndex row hlen hrow hh hfold
    have hi : i + 1 < self.nodes.length := by omega
    have hupper := List.getElem?_eq_getElem hi
    obtain ⟨left, right, hsib, hmem, hside⟩ :=
      findSiblings_of_linked (by omega) hrow (htower hrow hupper) hh
    obtain ⟨k, hfind, hk⟩ := findHashIndex_of_mem hupper hmem
    -- the point this row adds, and the hash one row up
    have hpath : (if nextHash = left then path ++ [⟨.left, right⟩] else path ++ [⟨.right, left⟩]) =
        path ++ [if nextHash = left then MerklePathPoint.mk .left right else MerklePathPoint.mk .right left] := by
      split <;> rfl
    have hfold' : (path ++ [if nextHash = left then MerklePathPoint.mk .left right
        else MerklePathPoint.mk .right left]).foldl verifyStep leaf =
        getNodeHash left right := by
      rw [List.foldl_append, hfold, List.foldl_cons, List.foldl_nil, verifyStep_recorded hside]
    obtain ⟨p, hp, hpt, hplen⟩ := ih (i + 1) _ _ k _ (by omega) hupper hk hfold'
    refine ⟨p, ?_, hpt, ?_⟩
    · simp only [List.range'_succ, pathFrom, hsib, Outcome.expect_some, Outcome.ok_bind, hfind]
      rw [hpath]
      exact hp
    · rw [hplen, List.length_append, List.length_singleton]
      omega

/-- Under the ideal hash, whatever verifies against the root of a tree of
data is one of the data. -/
theorem mem_of_pathVerify (hH : IdealHash H) {data : List (List UInt8)} (hdata : data ≠ []) {y : List UInt8}
    {q : MerklePath H} (h : pathVerify y q (new data : MerkleTree H).root = true) : y ∈ data := by
  unfold pathVerify at h
  split at h
  · cases h
  have hfold : q.foldl verifyStep (getLeafHash y) = (new data : MerkleTree H).root := of_decide_eq_true h
  -- the root is the one hash of the last row
  have hlast := (new_root (H := H) hdata).1
  rw [List.getLast?_eq_getElem?] at hlast
  exact mem_of_foldl_mem hH (tower_new hdata) (new_leaves hdata) q hlast (by rw [hfold]; simp)


/-- Every datum of a tree has a path, found without a panic, that verifies
against the root. -/
theorem path_verifies {data : List (List UInt8)} {x : List UInt8} (hx : x ∈ data) :
    ∃ p, (new data : MerkleTree H).path x = .ok p ∧ pathVerify x p (new data : MerkleTree H).root = true := by
  have hdata : data ≠ [] := List.ne_nil_of_mem hx
  obtain ⟨hbuild, hnodes⟩ := new_nodes (H := H) hdata
  have htop := (new_root (H := H) hdata).1
  have hleaves := new_leaves (H := H) hdata
  -- the leaves and, above them, at least the row of the root
  have hlen : 2 ≤ (new data : MerkleTree H).nodes.length := by
    obtain ⟨t, hlast, -⟩ := buildRows_climbs _ hbuild
    have hne : buildRows (padEven (data.map getLeafHash)) hbuild ≠ [] := by
      intro hnil
      simp [hnil] at hlast
    rw [hnodes, List.length_cons]
    have := List.length_pos_of_ne_nil hne
    omega
  obtain ⟨k, hfind, hk⟩ := findHashIndex_of_mem hleaves (mem_padEven.mpr (List.mem_map_of_mem hx))
  obtain ⟨p, hp, hpt, hplen⟩ :=
    pathFrom_ok (tower_new hdata) htop ((new data : MerkleTree H).nodes.length - 1) 0 [] _ k _ (by omega)
      hleaves hk rfl
  refine ⟨p, ?_, ?_⟩
  · simp only [path, hfind, Outcome.ok_bind, List.range_eq_range']
    exact hp
  · unfold pathVerify
    rw [if_neg (by simp only [hplen, List.length_nil]; omega)]
    exact decide_eq_true hpt

end PathProofs

/-! ### The tree commits to its data -/

section Commitment

variable [DecidableEq H]

/-- Under the ideal hash, the root of a nonempty list of distinct data
determines it, every datum has a path that verifies against the root, and
only the data have one. -/
theorem merkleRoot_commits_to_data (hH : IdealHash H) :
    (∀ d₁ d₂ : List (List UInt8), d₁ ≠ [] → d₂ ≠ [] → d₁.Nodup → d₂.Nodup →
        (new d₁ : MerkleTree H).root = (new d₂ : MerkleTree H).root → d₁ = d₂) ∧
      (∀ d : List (List UInt8), ∀ x ∈ d, ∃ p, (new d : MerkleTree H).path x = .ok p ∧
        pathVerify x p (new d : MerkleTree H).root = true) ∧
      (∀ d : List (List UInt8), d ≠ [] → ∀ (y : List UInt8) (q : MerklePath H),
        pathVerify y q (new d : MerkleTree H).root = true → y ∈ d) :=
  ⟨fun _ _ h₁ h₂ hn₁ hn₂ h => root_injective hH h₁ h₂ hn₁ hn₂ h,
    fun _ _ hx => path_verifies hx,
    fun _ hd _ _ h => mem_of_pathVerify hH hd h⟩

end Commitment

/-- A hash that keeps its input, the ideal one: its bytes write each data
byte after a `1` and end in a `0`, so two side by side come apart. -/
structure KeptHash where
  tag : UInt8
  data : List UInt8
  deriving DecidableEq

def escapeBytes : List UInt8 → List UInt8
  | [] => [0]
  | b :: bs => 1 :: b :: escapeBytes bs

instance : MerkleHashFunc KeptHash where
  empty := ⟨0, []⟩
  fromTaggedData := KeptHash.mk
  bits h := h.tag :: escapeBytes h.data

/-- Escaped bytes end where their `0` is. -/
theorem escapeBytes_append_inj : ∀ {d d' r r' : List UInt8},
    escapeBytes d ++ r = escapeBytes d' ++ r' → d = d' ∧ r = r'
  | [], [], _, _, h => ⟨rfl, by simpa [escapeBytes] using h⟩
  | [], _ :: _, _, _, h => by simp [escapeBytes] at h
  | _ :: _, [], _, _, h => by simp [escapeBytes] at h
  | b :: bs, b' :: bs', _, _, h => by
    simp only [escapeBytes, List.cons_append, List.cons.injEq, true_and] at h
    obtain ⟨rfl, hrest⟩ := h
    obtain ⟨rfl, rfl⟩ := escapeBytes_append_inj hrest
    exact ⟨rfl, rfl⟩

theorem keptHash_ideal : IdealHash KeptHash where
  fromTaggedData_injective _ _ _ _ h := KeptHash.mk.inj h
  bits_append_injective := by
    rintro ⟨t, d⟩ ⟨t', d'⟩ ⟨u, e⟩ ⟨u', e'⟩ h
    change (t :: escapeBytes d) ++ (u :: escapeBytes e) = (t' :: escapeBytes d') ++ (u' :: escapeBytes e') at h
    simp only [List.cons_append, List.cons.injEq] at h
    -- the first hash ends at its `0`, and the second is what is left
    obtain ⟨rfl, hfirst⟩ := h
    obtain ⟨rfl, hsecond⟩ := escapeBytes_append_inj hfirst
    simp only [List.cons.injEq] at hsecond
    obtain ⟨rfl, he⟩ := hsecond
    have he' : escapeBytes e ++ [] = escapeBytes e' ++ [] := by rw [he]
    obtain ⟨rfl, -⟩ := escapeBytes_append_inj he'
    exact ⟨rfl, rfl⟩

/-- With the hash that keeps its input, the third of three data has a path
that verifies, and the roots of two lists agree only when the lists do. -/
theorem merkleRoot_commits_at_three :
    IdealHash KeptHash ∧
      ((new [[1], [2], [3]] : MerkleTree KeptHash).root = (new [[1], [2], [3]] : MerkleTree KeptHash).root →
        [[1], [2], [3]] = ([[1], [2], [3]] : List (List UInt8))) ∧
      ∃ p, (new [[1], [2], [3]] : MerkleTree KeptHash).path [3] = .ok p ∧
        pathVerify [3] p (new [[1], [2], [3]] : MerkleTree KeptHash).root = true :=
  ⟨keptHash_ideal,
    (merkleRoot_commits_to_data keptHash_ideal).1 _ _ (by simp) (by simp) (by decide) (by decide),
    (merkleRoot_commits_to_data keptHash_ideal).2.1 _ [3] (by simp)⟩

end MerkleTree

end BlockstackCore
