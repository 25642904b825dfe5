import BlockstackCore.Library.IntervalChain
import BlockstackCore.Chainstate.Stacks.Auth
import BlockstackCore.Chainstate.Stacks.Index.Proofs
import BlockstackCore.Util.Uint

/-!
# Burn distributions and cryptographic sortition

`BurnSamplePoint::make_distribution` (`chainstate/burn/distribution.rs`) turns
the block commits, the leader keys they consume and the user burns of one
burn-chain block into a list of sample points. Each point's weight is its
commit's burn plus the user burns that support it. `make_sortition_ranges` then
gives each point a slice `[range_start, range_end)` of the 256-bit hash space.
The slice is computed in 512-bit fixed point from the running sum of the burns,
and the slices abut. `BlockSnapshot::sample_burn_distribution`
(`chainstate/burn/sortition.rs`) picks the point whose slice holds the
sortition index.

`Uint256` and `Uint512` are `BitVec 256` and `BitVec 512`. Their words are
little-endian and `Ord` compares them from the most significant word down, so
their order is the order of the numbers. `Mul` wraps, and `Div` asserts a
non-zero divisor. Burns are `u128` counters kept as `Nat`. Every `assert!`,
`panic!`, `unwrap` and index out of bounds is `panic`. The maps of the code
(`BTreeMap`s that are only looked up, inserted into and removed from) are
functions into `Option`. `Hash160::from_sha256` and `mix_VRF_seed` are hash
functions, and they are parameters.
-/

namespace BlockstackCore

open Outcome

/-! ### Fixed-width integers -/

abbrev Uint256 := BitVec 256

abbrev Uint512 := BitVec 512

/-- `Uint256::max()`: every word `0xffffffffffffffff`. -/
def Uint256.max : Uint256 := BitVec.allOnes 256

/-- `Uint512::from_uint256`: the four words, under four zero words. -/
def Uint512.fromUint256 (n : Uint256) : Uint512 := n.setWidth 512

/-- `Uint512::to_uint256`: the four low words. -/
def Uint512.toUint256 (n : Uint512) : Uint256 := n.setWidth 256

/-- `Uint512::from_u128`. -/
def Uint512.fromU128 (n : Nat) : Uint512 := BitVec.ofNat 512 n

/-- `impl Div for Uint512`: `assert!(your_bits != 0)`, then long division. -/
def Uint512.div (a b : Uint512) : Outcome Empty Uint512 :=
  if b = 0 then .panic else ok (a / b)

/-! ### Operations and sample points -/

abbrev VRFPublicKey := FixedBytes 32

abbrev VRFSeed := FixedBytes 32

abbrev SortitionHash := FixedBytes 32

/-- The fields of a `LeaderKeyRegisterOp` that a distribution reads. -/
structure LeaderKeyRegisterOp where
  publicKey : VRFPublicKey
  vtxindex : Nat
  blockHeight : Nat
  deriving DecidableEq, Repr

/-- The fields of a `LeaderBlockCommitOp` that a distribution reads. -/
structure LeaderBlockCommitOp where
  blockHeaderHash : BlockHeaderHash
  keyBlockPtr : Nat
  keyVtxindex : Nat
  burnFee : Nat
  vtxindex : Nat
  blockHeight : Nat
  deriving DecidableEq, Repr

/-- The fields of a `UserBurnSupportOp` that a distribution reads. -/
structure UserBurnSupportOp where
  publicKey : VRFPublicKey
  blockHeaderHash160 : Hash160
  burnFee : Nat
  vtxindex : Nat
  blockHeight : Nat
  deriving DecidableEq, Repr

structure BurnSamplePoint where
  burns : Nat
  rangeStart : Uint256
  rangeEnd : Uint256
  candidate : LeaderBlockCommitOp
  key : LeaderKeyRegisterOp
  userBurns : List UserBurnSupportOp
  deriving DecidableEq, Repr

/-- Where a leader key sits in the burn chain: `(block_height, vtxindex)`. -/
abbrev KeyLocation := Nat × Nat

def LeaderKeyRegisterOp.location (k : LeaderKeyRegisterOp) : KeyLocation :=
  (k.blockHeight, k.vtxindex)

/-- The key a commit consumes: `(key_block_ptr as u64, key_vtxindex as u32)`. -/
def LeaderBlockCommitOp.keyLocation (bc : LeaderBlockCommitOp) : KeyLocation :=
  (bc.keyBlockPtr, bc.keyVtxindex)

/-- What a user burn names the point it supports by: its VRF key and the
`Hash160` of its block header hash. -/
def UserBurnSupportOp.supportKey (ub : UserBurnSupportOp) : VRFPublicKey × Hash160 :=
  (ub.publicKey, ub.blockHeaderHash160)

/-! ### Making a distribution -/

/-- One list's half of `ops_sanity_checks`, over its `(block_height, vtxindex)`
pairs: every operation is at the first one's height, and the `vtxindex`es
strictly increase. The code skips a list of at most one operation, which
passes both checks. Its loop over the user burns' heights starts at the first
burn itself, which also passes. -/
def opsInOrder (ops : List (Nat × Nat)) : Bool :=
  match ops with
  | [] => true
  | (height, _) :: _ => ops.all (fun op => op.1 == height) && decide (ops.IsChain fun a b => a.2 < b.2)

def opsSanityChecks (blockCandidates : List LeaderBlockCommitOp)
    (userBurns : List UserBurnSupportOp) : Outcome Empty Unit :=
  if opsInOrder (blockCandidates.map fun bc => (bc.blockHeight, bc.vtxindex)) &&
      opsInOrder (userBurns.map fun ub => (ub.blockHeight, ub.vtxindex)) then ok ()
  else .panic

/-- The indexing loops of `make_distribution` and `apply_user_burns`: map the
key of the item at each position `i` to `i`, after `assert!`ing that the key is
not in the map yet. -/
def indexBy {κ β : Type} [DecidableEq κ] (key : β → κ) :
    Nat → List β → (κ → Option Nat) → Outcome Empty (κ → Option Nat)
  | _, [], index => ok index
  | i, b :: bs, index =>
    if (index (key b)).isSome then .panic
    else indexBy key (i + 1) bs (Function.update index (key b) (some i))

/-- The loop of `make_distribution` that consumes the commits. A commit whose
key is still in the map becomes a point of weight `burn_fee`, and its key leaves
the map. A commit whose key an earlier commit consumed is dropped. -/
def consumeCandidates (consumedLeaderKeys : List LeaderKeyRegisterOp) :
    List LeaderBlockCommitOp → (KeyLocation → Option Nat) → Outcome Empty (List BurnSamplePoint)
  | [], _ => ok []
  | bc :: bcs, keyIndex =>
    match keyIndex bc.keyLocation with
    | none => consumeCandidates consumedLeaderKeys bcs keyIndex
    | some i => do
      let key ← expect consumedLeaderKeys[i]?
      let rest ← consumeCandidates consumedLeaderKeys bcs (Function.update keyIndex bc.keyLocation none)
      ok (⟨bc.burnFee, 0, 0, bc, key, []⟩ :: rest)

section Hashes

variable (fromSha256 : BlockHeaderHash → Hash160)

/-- The key of `apply_user_burns`' index: the point's VRF key and the `Hash160`
of its commit's block header hash. -/
def BurnSamplePoint.supportKey (p : BurnSamplePoint) : VRFPublicKey × Hash160 :=
  (p.key.publicKey, fromSha256 p.candidate.blockHeaderHash)

/-- One turn of the matching loop of `apply_user_burns`: a user burn that names
a point adds its fee to the point and joins its list; any other is ignored.
The index only holds positions of the sample, so `modify` never misses. -/
def applyUserBurn (burnIndex : VRFPublicKey × Hash160 → Option Nat)
    (burnSample : List BurnSamplePoint) (userBurn : UserBurnSupportOp) : List BurnSamplePoint :=
  match burnIndex userBurn.supportKey with
  | some idx => burnSample.modify idx fun p =>
    { p with burns := p.burns + userBurn.burnFee, userBurns := p.userBurns ++ [userBurn] }
  | none => burnSample

def applyUserBurns (burnSample : List BurnSamplePoint) (userBurns : List UserBurnSupportOp) :
    Outcome Empty (List BurnSamplePoint) := do
  let burnIndex ← indexBy (BurnSamplePoint.supportKey fromSha256) 0 burnSample fun _ => none
  ok (userBurns.foldl (applyUserBurn burnIndex) burnSample)

end Hashes

/-- `get_total_burns`: the sum of the burns, if it is below `u64::MAX`. -/
def getTotalBurns (burnDist : List BurnSamplePoint) : Option Nat :=
  let total := (burnDist.map (·.burns)).sum
  if total ≥ 2 ^ 64 - 1 then none else some total

/-- The loop of `make_sortition_ranges`: each point's slice starts where the one
before ends, and ends at `max * burn_acc / total_burns`, truncated to 256 bits.
The code's accumulator starts at the first point's burns; here it starts at
zero and adds them. -/
def assignRanges (totalBurns : Uint512) :
    Uint256 → Uint512 → List BurnSamplePoint → Outcome Empty (List BurnSamplePoint)
  | _, _, [] => ok []
  | rangeStart, burnAcc, p :: ps => do
    let burnAcc := burnAcc + Uint512.fromU128 p.burns
    let rangeEnd := Uint512.toUint256
      (← Uint512.div (Uint512.fromUint256 Uint256.max * burnAcc) totalBurns)
    let rest ← assignRanges totalBurns rangeEnd burnAcc ps
    ok ({ p with rangeStart, rangeEnd } :: rest)

def makeSortitionRanges (burnSample : List BurnSamplePoint) : Outcome Empty (List BurnSamplePoint) :=
  match burnSample with
  | [] => ok []
  | [p] => ok [{ p with rangeStart := 0, rangeEnd := Uint256.max }]
  | _ => do
    let totalBurns ← expect (getTotalBurns burnSample)
    assignRanges (Uint512.fromU128 totalBurns) 0 0 burnSample

/-- `BurnSamplePoint::make_distribution`. -/
def makeDistribution (fromSha256 : BlockHeaderHash → Hash160)
    (allBlockCandidates : List LeaderBlockCommitOp) (consumedLeaderKeys : List LeaderKeyRegisterOp)
    (userBurns : List UserBurnSupportOp) : Outcome Empty (List BurnSamplePoint) :=
  if allBlockCandidates.length = 0 then ok []
  else do
    opsSanityChecks allBlockCandidates userBurns
    let keyIndex ← indexBy LeaderKeyRegisterOp.location 0 consumedLeaderKeys fun _ => none
    -- the sanity check that every commit refers to a consumed key
    if allBlockCandidates.all fun bc => (keyIndex bc.keyLocation).isSome then
      let burnSample ← consumeCandidates consumedLeaderKeys allBlockCandidates keyIndex
      let burnSample ← applyUserBurns fromSha256 burnSample userBurns
      makeSortitionRanges burnSample
    else .panic

/-! ### Sampling -/

/-- `SortitionHash::to_uint256`: the 32 bytes as a little-endian number. -/
def SortitionHash.toUint256 (h : SortitionHash) : Uint256 :=
  BitVec.ofNat 256 (ByteCodec.ofDigits h.bytes)

/-- The test of the sampling loop: `range_start <= index && index < range_end`. -/
def BurnSamplePoint.holds (index : Uint256) (p : BurnSamplePoint) : Bool :=
  decide (p.rangeStart ≤ index ∧ index < p.rangeEnd)

/-- `BlockSnapshot::sample_burn_distribution`. The loop returns the first point
whose slice holds the index; if none does, it panics. -/
def sampleBurnDistribution (mixVRFSeed : SortitionHash → VRFSeed → SortitionHash)
    (dist : List BurnSamplePoint) (vrfSeed : VRFSeed) (sortitionHash : SortitionHash) :
    Outcome Empty (Option Nat) :=
  if dist.length = 0 then ok none
  else if dist.length = 1 then ok (some 0)
  else
    let index := (mixVRFSeed sortitionHash vrfSeed).toUint256
    match dist.findIdx? (BurnSamplePoint.holds index) with
    | some i => ok (some i)
    | none => .panic

/-! ### The slices in exact arithmetic

`sortitionRanges total start acc ps` is what the ranges loop computes when
nothing wraps. The slice of a point ends at `(2^256 - 1) * acc / total` for the
running sum `acc` of the burns up to and including it. -/

/-- The end of the slice whose running burn sum is `acc`. -/
def sliceEnd (total acc : Nat) : Uint256 := BitVec.ofNat 256 ((2 ^ 256 - 1) * acc / total)

def sortitionRanges (total : Nat) : Uint256 → Nat → List BurnSamplePoint → List BurnSamplePoint
  | _, _, [] => []
  | rangeStart, burnAcc, p :: ps =>
    { p with rangeStart, rangeEnd := sliceEnd total (burnAcc + p.burns) } ::
      sortitionRanges total (sliceEnd total (burnAcc + p.burns)) (burnAcc + p.burns) ps

section Slices

variable {total : Nat}

/-- A slice end below the total fits 256 bits without truncation. -/
theorem sliceEnd_toNat {acc : Nat} (h0 : 0 < total) (hacc : acc ≤ total) :
    (sliceEnd total acc).toNat = (2 ^ 256 - 1) * acc / total := by
  have hle : (2 ^ 256 - 1) * acc / total ≤ 2 ^ 256 - 1 := by
    calc (2 ^ 256 - 1) * acc / total ≤ (2 ^ 256 - 1) * total / total :=
          Nat.div_le_div_right (Nat.mul_le_mul_left _ hacc)
      _ = 2 ^ 256 - 1 := Nat.mul_div_cancel _ h0
  rw [sliceEnd, BitVec.toNat_ofNat, Nat.mod_eq_of_lt (by omega)]

theorem lt_two_pow_512 {n : Nat} (h : n < 2 ^ 256) : n < 2 ^ 512 :=
  Nat.lt_of_lt_of_le h (@Nat.pow_le_pow_right 2 (by omega) 256 512 (by omega))

/-- The fixed-point product of the ranges loop stays below `2^512` while the
running sum stays below `2^64`. -/
theorem max_mul_lt_two_pow_512 {acc : Nat} (h : acc < 2 ^ 64) : (2 ^ 256 - 1) * acc < 2 ^ 512 :=
  calc (2 ^ 256 - 1) * acc < 2 ^ 256 * 2 ^ 64 :=
        Nat.mul_lt_mul_of_lt_of_le (by omega) (by omega) (by omega)
    _ = 2 ^ (256 + 64) := (Nat.pow_add 2 256 64).symm
    _ ≤ 2 ^ 512 := @Nat.pow_le_pow_right 2 (by omega) (256 + 64) 512 (by omega)

/-- One turn of the code's loop computes the exact slice end: the product
`max * acc` stays below `2^512` while `acc < 2^64`. -/
theorem div_max_mul_eq_sliceEnd {acc : Nat} (h0 : 0 < total) (h64 : total < 2 ^ 64)
    (hacc : acc ≤ total) :
    Uint512.div (Uint512.fromUint256 Uint256.max * Uint512.fromU128 acc) (Uint512.fromU128 total) =
      ok (BitVec.ofNat 512 ((2 ^ 256 - 1) * acc)  / BitVec.ofNat 512 total) := by
  have hne : Uint512.fromU128 total ≠ 0 := by
    intro h
    have := congrArg BitVec.toNat h
    rw [Uint512.fromU128, BitVec.toNat_ofNat, Nat.mod_eq_of_lt (lt_two_pow_512 (by omega))] at this
    simp only [BitVec.toNat_ofNat, BitVec.ofNat_eq_ofNat, Nat.zero_mod] at this
    exact Nat.ne_of_gt h0 this
  have hmul := max_mul_lt_two_pow_512 (show acc < 2 ^ 64 by omega)
  have hprod : Uint512.fromUint256 Uint256.max * Uint512.fromU128 acc =
      BitVec.ofNat 512 ((2 ^ 256 - 1) * acc) := by
    apply BitVec.eq_of_toNat_eq
    simp only [Uint512.fromUint256, Uint256.max, Uint512.fromU128, BitVec.toNat_mul,
      BitVec.toNat_setWidth, BitVec.toNat_allOnes, BitVec.toNat_ofNat]
    rw [Nat.mod_eq_of_lt (lt_two_pow_512 (n := 2 ^ 256 - 1) (by omega)),
      Nat.mod_eq_of_lt (lt_two_pow_512 (n := acc) (by omega))]
  rw [Uint512.div, if_neg hne, hprod]
  rfl

theorem toUint256_div_eq_sliceEnd {acc : Nat} (h0 : 0 < total) (h64 : total < 2 ^ 64)
    (hacc : acc ≤ total) :
    Uint512.toUint256 (BitVec.ofNat 512 ((2 ^ 256 - 1) * acc) / BitVec.ofNat 512 total) =
      sliceEnd total acc := by
  have hmul := max_mul_lt_two_pow_512 (show acc < 2 ^ 64 by omega)
  apply BitVec.eq_of_toNat_eq
  simp only [Uint512.toUint256, sliceEnd, BitVec.toNat_setWidth, BitVec.toNat_udiv,
    BitVec.toNat_ofNat]
  rw [Nat.mod_eq_of_lt hmul, Nat.mod_eq_of_lt (lt_two_pow_512 (n := total) (by omega))]

/-- The code's loop refines the exact one: run from a running sum `acc` that
leaves room for the rest of the burns, it computes the same slices. -/
theorem assignRanges_eq_sortitionRanges (h0 : 0 < total) (h64 : total < 2 ^ 64) :
    ∀ (ps : List BurnSamplePoint) (rangeStart : Uint256) (acc : Nat),
      acc + (ps.map (·.burns)).sum ≤ total →
      assignRanges (Uint512.fromU128 total) rangeStart (Uint512.fromU128 acc) ps =
        ok (sortitionRanges total rangeStart acc ps)
  | [], _, _, _ => rfl
  | p :: ps, rangeStart, acc, hroom => by
    have hroom' : (acc + p.burns) + (ps.map (·.burns)).sum ≤ total := by
      simp only [List.map_cons, List.sum_cons] at hroom
      omega
    have hacc : Uint512.fromU128 acc + Uint512.fromU128 p.burns = Uint512.fromU128 (acc + p.burns) :=
      BitVec.ofNat_add_ofNat acc p.burns
    have hstep := div_max_mul_eq_sliceEnd h0 h64 (show acc + p.burns ≤ total by omega)
    simp only [assignRanges, hacc, hstep, ok_bind,
      toUint256_div_eq_sliceEnd h0 h64 (show acc + p.burns ≤ total by omega),
      assignRanges_eq_sortitionRanges h0 h64 ps _ (acc + p.burns) hroom', sortitionRanges]

@[simp] theorem length_sortitionRanges (rangeStart : Uint256) (acc : Nat) (ps : List BurnSamplePoint) :
    (sortitionRanges total rangeStart acc ps).length = ps.length := by
  induction ps generalizing rangeStart acc with
  | nil => rfl
  | cons p ps ih => simp [sortitionRanges, ih]

/-- The slices abut, from the start given to the loop. -/
theorem abutting_sortitionRanges (rangeStart : Uint256) (acc : Nat) (ps : List BurnSamplePoint) :
    IntervalChain.Abutting (·.rangeStart.toNat) (·.rangeEnd.toNat) rangeStart.toNat
      (sortitionRanges total rangeStart acc ps) := by
  induction ps generalizing rangeStart acc with
  | nil => trivial
  | cons p ps ih => exact ⟨rfl, ih _ _⟩

/-- The slices end where the running sum of all the burns puts the last end. -/
theorem chainEnd_sortitionRanges (h0 : 0 < total) (rangeStart : Uint256) :
    ∀ (acc : Nat) (ps : List BurnSamplePoint), ps ≠ [] → acc + (ps.map (·.burns)).sum ≤ total →
      IntervalChain.chainEnd (·.rangeEnd.toNat) rangeStart.toNat (sortitionRanges total rangeStart acc ps) =
        (2 ^ 256 - 1) * (acc + (ps.map (·.burns)).sum) / total
  | _, [], hne, _ => absurd rfl hne
  | acc, [p], _, hroom => by
    simp only [List.map_cons, List.map_nil, List.sum_cons, List.sum_nil, Nat.add_zero] at hroom ⊢
    simp only [sortitionRanges, IntervalChain.chainEnd_cons, IntervalChain.chainEnd_nil]
    exact sliceEnd_toNat h0 hroom
  | acc, p :: q :: ps, _, hroom => by
    have hroom' : (acc + p.burns) + ((q :: ps).map (·.burns)).sum ≤ total := by
      simp only [List.map_cons, List.sum_cons] at hroom ⊢
      omega
    have ih := chainEnd_sortitionRanges h0 (sliceEnd total (acc + p.burns)) (acc + p.burns) (q :: ps)
      (List.cons_ne_nil q ps) hroom'
    rw [sortitionRanges, IntervalChain.chainEnd_cons]
    simp only [List.map_cons, List.sum_cons] at ih ⊢
    rw [ih, Nat.add_assoc]

/-- The end of the `i`-th slice: `(2^256 - 1)` times the burns up to and
including point `i`, over the total. -/
theorem rangeEnd_sortitionRanges (h0 : 0 < total) :
    ∀ (rangeStart : Uint256) (acc : Nat) (ps : List BurnSamplePoint),
      acc + (ps.map (·.burns)).sum ≤ total →
      ∀ (i : Nat) (h : i < (sortitionRanges total rangeStart acc ps).length),
        (sortitionRanges total rangeStart acc ps)[i].rangeEnd.toNat =
          (2 ^ 256 - 1) * (acc + ((ps.take (i + 1)).map (·.burns)).sum) / total
  | _, _, [], _, _, h => by simp at h
  | rangeStart, acc, p :: ps, hroom, i, h => by
    simp only [List.map_cons, List.sum_cons] at hroom
    cases i with
    | zero =>
      simp only [sortitionRanges, List.getElem_cons_zero, List.take_succ_cons, List.take_zero,
        List.map_cons, List.map_nil, List.sum_cons, List.sum_nil, Nat.add_zero]
      exact sliceEnd_toNat h0 (by omega)
    | succ i =>
      have h' : i < (sortitionRanges total (sliceEnd total (acc + p.burns)) (acc + p.burns) ps).length := by
        simpa [sortitionRanges] using h
      have ih := rangeEnd_sortitionRanges h0 _ (acc + p.burns) ps (by omega) i h'
      simp only [sortitionRanges, List.getElem_cons_succ, List.take_succ_cons, List.map_cons,
        List.sum_cons]
      rw [ih, Nat.add_assoc]

/-- Each slice after the first starts where the one before it ends. -/
theorem rangeStart_succ_sortitionRanges :
    ∀ (rangeStart : Uint256) (acc : Nat) (ps : List BurnSamplePoint) (i : Nat)
      (h : i + 1 < (sortitionRanges total rangeStart acc ps).length),
      (sortitionRanges total rangeStart acc ps)[i + 1].rangeStart =
        (sortitionRanges total rangeStart acc ps)[i].rangeEnd
  | _, _, [], _, h => by simp at h
  | _, _, [_], _, h => by simp [sortitionRanges] at h
  | rangeStart, acc, p :: q :: ps, i, h => by
    cases i with
    | zero => rfl
    | succ i =>
      have h' : i + 1 < (sortitionRanges total (sliceEnd total (acc + p.burns)) (acc + p.burns)
          (q :: ps)).length := by
        simpa [sortitionRanges] using h
      exact rangeStart_succ_sortitionRanges _ (acc + p.burns) (q :: ps) i h'

end Slices

/-! ### The ranges of a distribution -/

theorem Uint256.max_eq_ofNat : Uint256.max = BitVec.ofNat 256 (2 ^ 256 - 1) := by
  apply BitVec.eq_of_toNat_eq
  rw [Uint256.max, BitVec.toNat_allOnes, BitVec.toNat_ofNat, Nat.mod_eq_of_lt (by omega)]

/-- With a total burn in `(0, u64::MAX)`, the ranges are the exact slices, from
zero with a zero running sum. A single point gets the whole space without a
division, and its exact slice is the whole space too. -/
theorem makeSortitionRanges_eq {ps : List BurnSamplePoint} (hne : ps ≠ [])
    (h0 : 0 < (ps.map (·.burns)).sum) (h64 : (ps.map (·.burns)).sum < 2 ^ 64 - 1) :
    makeSortitionRanges ps = ok (sortitionRanges (ps.map (·.burns)).sum 0 0 ps) := by
  rcases ps with _ | ⟨p, _ | ⟨q, rest⟩⟩
  · exact absurd rfl hne
  · have hp : 0 < p.burns := by simpa using h0
    have hend : sliceEnd p.burns p.burns = Uint256.max := by
      rw [sliceEnd, Nat.mul_div_cancel _ hp, ← Uint256.max_eq_ofNat]
    simp [makeSortitionRanges, sortitionRanges, hend]
  · have htotal : getTotalBurns (p :: q :: rest) = some ((p :: q :: rest).map (·.burns)).sum := by
      simp only [getTotalBurns]
      rw [if_neg (by omega)]
    have hloop := assignRanges_eq_sortitionRanges h0 (by omega) (p :: q :: rest) 0 0 (by omega)
    simp only [makeSortitionRanges, htotal, expect_some, ok_bind]
    exact hloop

/-- The ranged points are the given points with their two bounds set. -/
theorem map_unranged_sortitionRanges {total : Nat} (rangeStart : Uint256) (acc : Nat)
    (ps : List BurnSamplePoint) :
    (sortitionRanges total rangeStart acc ps).map (fun p => { p with rangeStart := 0, rangeEnd := 0 }) =
      ps.map (fun p => { p with rangeStart := 0, rangeEnd := 0 }) := by
  induction ps generalizing rangeStart acc with
  | nil => rfl
  | cons p ps ih => simp only [sortitionRanges, List.map_cons, ih]

/-- The sampler's test is the interval test on the numbers the slice bounds spell. -/
theorem BurnSamplePoint.holds_eq (index : Uint256) :
    BurnSamplePoint.holds index =
      IntervalChain.holds (·.rangeStart.toNat) (·.rangeEnd.toNat) index.toNat := by
  funext p
  simp [BurnSamplePoint.holds, IntervalChain.holds, BitVec.le_def, BitVec.lt_def]

/-- Every index below `2^256 - 1` lies in the slice of a point, and the sampler
finds the first such point. -/
theorem findIdx_holds_sortitionRanges {ps : List BurnSamplePoint} (hne : ps ≠ [])
    (h0 : 0 < (ps.map (·.burns)).sum) (index : Uint256) (hindex : index.toNat < 2 ^ 256 - 1) :
    ∃ i, ∃ h : i < (sortitionRanges (ps.map (·.burns)).sum 0 0 ps).length,
      (sortitionRanges (ps.map (·.burns)).sum 0 0 ps).findIdx? (BurnSamplePoint.holds index) = some i ∧
      (sortitionRanges (ps.map (·.burns)).sum 0 0 ps)[i].holds index = true := by
  have hend := chainEnd_sortitionRanges h0 (0 : Uint256) 0 ps hne (by omega)
  rw [Nat.zero_add, Nat.mul_div_cancel _ h0] at hend
  obtain ⟨i, hi, hfind, hlo, hhi⟩ := IntervalChain.findIdx_holds_of_abutting _ _
    (abutting_sortitionRanges 0 0 ps) (Nat.zero_le _) (hend ▸ hindex)
  refine ⟨i, hi, (BurnSamplePoint.holds_eq index) ▸ hfind, ?_⟩
  rw [BurnSamplePoint.holds_eq]
  simp only [IntervalChain.holds, decide_eq_true_eq]
  exact ⟨hlo, hhi⟩

/-- No slice holds the top index `2^256 - 1`: a slice is half-open and ends at a
256-bit number. -/
theorem BurnSamplePoint.holds_max (p : BurnSamplePoint) : p.holds Uint256.max = false := by
  have hend := p.rangeEnd.isLt
  simp only [BurnSamplePoint.holds, BitVec.lt_def, Uint256.max, BitVec.toNat_allOnes,
    decide_eq_false_iff_not, not_and]
  omega

/-! ### The indexing loops -/

section IndexBy

variable {κ β : Type} [DecidableEq κ] (key : β → κ)

/-- With distinct keys, none of them in the map yet, the indexing loop succeeds:
it maps the key of each item to the item's position, counted from `i`, and
leaves every other key as it was. -/
theorem indexBy_eq_ok : ∀ (i : Nat) (bs : List β) (index : κ → Option Nat),
    (bs.map key).Nodup → (∀ b ∈ bs, index (key b) = none) →
    indexBy key i bs index =
      ok fun k => ((bs.findIdx? fun b => decide (key b = k)).map (i + ·)).or (index k)
  | _, [], index, _, _ => by simp [indexBy]
  | i, b :: bs, index, hnodup, hfresh => by
    rw [List.map_cons, List.nodup_cons] at hnodup
    have hb : index (key b) = none := hfresh b List.mem_cons_self
    have hfresh' : ∀ b' ∈ bs, Function.update index (key b) (some i) (key b') = none := by
      intro b' hb'
      have hne : key b' ≠ key b := fun h => hnodup.1 (h ▸ List.mem_map_of_mem hb')
      rw [Function.update_of_ne hne]
      exact hfresh b' (List.mem_cons_of_mem b hb')
    rw [indexBy, hb, Option.isSome_none, if_neg Bool.false_ne_true,
      indexBy_eq_ok (i + 1) bs _ hnodup.2 hfresh']
    congr 1
    funext k
    by_cases hk : key b = k
    -- the item's own key: no later item has it, so the update gives `i`
    · subst hk
      have hnone : bs.findIdx? (fun b' => decide (key b' = key b)) = none := by
        rw [List.findIdx?_eq_none_iff]
        intro b' hb'
        have hne : key b' ≠ key b := fun h => hnodup.1 (h ▸ List.mem_map_of_mem hb')
        simpa using hne
      simp [List.findIdx?_cons, hnone]
    -- another key: its position moves one further along the list
    · have hk' : k ≠ key b := Ne.symm hk
      simp only [List.findIdx?_cons, decide_eq_true_eq, hk, if_false, Option.map_map,
        Function.update_of_ne hk']
      congr 2
      funext j
      simp only [Function.comp_apply]
      omega

/-- From an empty map and position zero, each key maps to where it first occurs. -/
theorem indexBy_eq_findIdx {bs : List β} (hnodup : (bs.map key).Nodup) :
    indexBy key 0 bs (fun _ => none) = ok fun k => bs.findIdx? fun b => decide (key b = k) := by
  rw [indexBy_eq_ok key 0 bs _ hnodup (fun _ _ => rfl)]
  congr 1
  funext k
  cases bs.findIdx? fun b => decide (key b = k) <;> simp

end IndexBy

/-! ### Consuming the commits -/

/-- The commits that `make_distribution` keeps, given the key locations `used`
that earlier commits consumed: each commit whose key no earlier commit used. -/
def firstUses : List KeyLocation → List LeaderBlockCommitOp → List LeaderBlockCommitOp
  | _, [] => []
  | used, bc :: bcs =>
    if bc.keyLocation ∈ used then firstUses used bcs
    else bc :: firstUses (bc.keyLocation :: used) bcs

/-- The kept commits consume pairwise different keys, none of them used before. -/
theorem nodup_firstUses : ∀ (used : List KeyLocation) (bcs : List LeaderBlockCommitOp),
    ((firstUses used bcs).map (·.keyLocation)).Nodup ∧
      ∀ bc ∈ firstUses used bcs, bc.keyLocation ∉ used
  | _, [] => by simp [firstUses]
  | used, bc :: bcs => by
    by_cases hused : bc.keyLocation ∈ used
    · simp only [firstUses, hused, if_true]
      exact nodup_firstUses used bcs
    · obtain ⟨hnodup, hfresh⟩ := nodup_firstUses (bc.keyLocation :: used) bcs
      rw [firstUses, if_neg hused]
      refine ⟨?_, ?_⟩
      · rw [List.map_cons, List.nodup_cons]
        refine ⟨?_, hnodup⟩
        intro hmem
        obtain ⟨bc', h, heq⟩ := List.mem_map.mp hmem
        exact hfresh bc' h (List.mem_cons.mpr (.inl heq))
      · intro bc' h
        rcases List.mem_cons.mp h with rfl | h
        · exact hused
        · exact fun hu => hfresh bc' h (List.mem_cons_of_mem _ hu)

variable (consumedLeaderKeys : List LeaderKeyRegisterOp)

/-- The point a consumed commit makes, before any user burn: weight `burn_fee`,
empty slice, the key it consumes. -/
structure FreshPoint (p : BurnSamplePoint) : Prop where
  burns_eq : p.burns = p.candidate.burnFee
  key_mem : p.key ∈ consumedLeaderKeys
  key_location : p.key.location = p.candidate.keyLocation
  userBurns_eq : p.userBurns = []

/-- The consuming loop, run with the key map left after the commits that used
`used`, makes one fresh point per kept commit, in commit order. -/
theorem consumeCandidates_eq {keyIndex : KeyLocation → Option Nat}
    (hindex : ∀ l i, keyIndex l = some i →
      ∃ h : i < consumedLeaderKeys.length, consumedLeaderKeys[i].location = l) :
    ∀ (bcs : List LeaderBlockCommitOp) (used : List KeyLocation),
      (∀ bc ∈ bcs, (keyIndex bc.keyLocation).isSome) →
      ∃ pts, consumeCandidates consumedLeaderKeys bcs
          (fun l => if l ∈ used then none else keyIndex l) = ok pts ∧
        pts.map (·.candidate) = firstUses used bcs ∧ ∀ p ∈ pts, FreshPoint consumedLeaderKeys p
  | [], _, _ => ⟨[], rfl, rfl, by simp⟩
  | bc :: bcs, used, hfound => by
    have hfound' : ∀ bc' ∈ bcs, (keyIndex bc'.keyLocation).isSome :=
      fun bc' h => hfound bc' (List.mem_cons_of_mem bc h)
    by_cases hused : bc.keyLocation ∈ used
    -- a commit whose key was consumed is dropped
    · obtain ⟨pts, hrun, hmap, hfresh⟩ := consumeCandidates_eq hindex bcs used hfound'
      refine ⟨pts, ?_, by simp [firstUses, hused, hmap], hfresh⟩
      simp only [consumeCandidates, hused, if_true]
      exact hrun
    -- otherwise its key is in the map, and it leaves the map
    · obtain ⟨i, hi⟩ := Option.isSome_iff_exists.mp (hfound bc List.mem_cons_self)
      obtain ⟨hlt, hloc⟩ := hindex _ i hi
      have hupdate : Function.update (fun l => if l ∈ used then none else keyIndex l)
          bc.keyLocation none = fun l => if l ∈ bc.keyLocation :: used then none else keyIndex l := by
        funext l
        by_cases hl : l = bc.keyLocation <;> simp [hl]
      obtain ⟨pts, hrun, hmap, hfresh⟩ :=
        consumeCandidates_eq hindex bcs (bc.keyLocation :: used) hfound'
      refine ⟨⟨bc.burnFee, 0, 0, bc, consumedLeaderKeys[i], []⟩ :: pts, ?_, ?_, ?_⟩
      · simp only [consumeCandidates, hused, if_false, hi, List.getElem?_eq_getElem hlt,
          expect_some, ok_bind, hupdate, hrun]
      · simp [firstUses, hused, hmap]
      · simp only [List.mem_cons, forall_eq_or_imp]
        exact ⟨⟨rfl, List.getElem_mem hlt, hloc, rfl⟩, hfresh⟩

/-! ### Applying the user burns -/

/-- A point with the user burns `us` applied: their fees added to its weight,
and they appended to its list. -/
def BurnSamplePoint.withUserBurns (p : BurnSamplePoint) (us : List UserBurnSupportOp) :
    BurnSamplePoint :=
  { p with burns := p.burns + (us.map (·.burnFee)).sum, userBurns := p.userBurns ++ us }

namespace BurnSamplePoint

@[simp] theorem withUserBurns_nil (p : BurnSamplePoint) : p.withUserBurns [] = p := by
  simp [withUserBurns]

theorem withUserBurns_append (p : BurnSamplePoint) (us vs : List UserBurnSupportOp) :
    (p.withUserBurns us).withUserBurns vs = p.withUserBurns (us ++ vs) := by
  simp [withUserBurns, Nat.add_assoc]

end BurnSamplePoint

section Support

variable (fromSha256 : BlockHeaderHash → Hash160)

@[simp] theorem supportKey_withUserBurns (p : BurnSamplePoint) (us : List UserBurnSupportOp) :
    (p.withUserBurns us).supportKey fromSha256 = p.supportKey fromSha256 := rfl

/-- One turn of the matching loop, with an index of the sample's distinct
support keys, applies the user burn to the one point it names, if there is one. -/
theorem applyUserBurn_eq {ks : List (VRFPublicKey × Hash160)} {s : List BurnSamplePoint}
    {burnIndex : VRFPublicKey × Hash160 → Option Nat}
    (hindex : ∀ k, burnIndex k = ks.findIdx? fun x => decide (x = k))
    (hks : s.map (·.supportKey fromSha256) = ks) (hnodup : ks.Nodup) (ub : UserBurnSupportOp) :
    applyUserBurn burnIndex s ub =
      s.map fun p => if p.supportKey fromSha256 = ub.supportKey then p.withUserBurns [ub] else p := by
  have hstep : (fun p : BurnSamplePoint =>
      { p with burns := p.burns + ub.burnFee, userBurns := p.userBurns ++ [ub] }) =
      fun p => p.withUserBurns [ub] := by
    funext p
    simp [BurnSamplePoint.withUserBurns]
  have hkey : ∀ (m : Nat) (hm : m < s.length) (hmk : m < ks.length),
      s[m].supportKey fromSha256 = ks[m] := by
    intro m hm hmk
    simp [← hks]
  rw [applyUserBurn, hindex]
  cases hfind : ks.findIdx? fun x => decide (x = ub.supportKey) with
  -- no point has the burn's key: the sample is unchanged
  | none =>
    dsimp only
    rw [List.findIdx?_eq_none_iff] at hfind
    symm
    refine (List.map_congr_left fun p hp => ?_).trans (List.map_id s)
    have hne := hfind _ (hks ▸ List.mem_map_of_mem hp)
    simp only [decide_eq_false_iff_not] at hne
    simp [hne]
  -- point `j` has it, and it is the only one
  | some j =>
    dsimp only
    obtain ⟨hj, hkj, -⟩ := List.findIdx?_eq_some_iff_getElem.mp hfind
    simp only [decide_eq_true_eq] at hkj
    rw [hstep]
    apply List.ext_getElem (by simp)
    intro m hm _
    have hm' : m < s.length := by simpa using hm
    have hmk : m < ks.length := by simpa [← hks] using hm'
    have hiff : j = m ↔ s[m].supportKey fromSha256 = ub.supportKey := by
      rw [hkey m hm' hmk, ← hkj]
      exact ⟨fun h => by subst h; rfl, fun h => ((hnodup.getElem_inj_iff).mp h).symm⟩
    simp only [List.getElem_modify, List.getElem_map]
    by_cases hjm : j = m
    · simp [hjm, hiff.mp hjm]
    · simp [hjm, hiff.not.mp hjm]

/-- The matching loop applies to each point exactly the user burns that name it,
in their order. -/
theorem foldl_applyUserBurn {ks : List (VRFPublicKey × Hash160)}
    {burnIndex : VRFPublicKey × Hash160 → Option Nat}
    (hindex : ∀ k, burnIndex k = ks.findIdx? fun x => decide (x = k)) (hnodup : ks.Nodup) :
    ∀ (ubs : List UserBurnSupportOp) (s : List BurnSamplePoint),
      s.map (·.supportKey fromSha256) = ks →
      ubs.foldl (applyUserBurn burnIndex) s =
        s.map fun p => p.withUserBurns
          (ubs.filter fun ub => p.supportKey fromSha256 = ub.supportKey)
  | [], s, _ => by simp
  | ub :: ubs, s, hks => by
    have hks' : (s.map fun p => if p.supportKey fromSha256 = ub.supportKey then
        p.withUserBurns [ub] else p).map (·.supportKey fromSha256) = ks := by
      rw [← hks, List.map_map]
      congr 1
      funext p
      by_cases h : p.supportKey fromSha256 = ub.supportKey <;> simp [h]
    rw [List.foldl_cons, applyUserBurn_eq fromSha256 hindex hks hnodup ub,
      foldl_applyUserBurn hindex hnodup ubs _ hks', List.map_map]
    congr 1
    funext p
    by_cases h : p.supportKey fromSha256 = ub.supportKey
    · simp [h, BurnSamplePoint.withUserBurns_append]
    · simp [h]

/-- `apply_user_burns` on a sample whose support keys are distinct adds to each
point the fees of the user burns that name it. -/
theorem applyUserBurns_eq {pts : List BurnSamplePoint}
    (hnodup : (pts.map (·.supportKey fromSha256)).Nodup) (ubs : List UserBurnSupportOp) :
    applyUserBurns fromSha256 pts ubs =
      ok (pts.map fun p => p.withUserBurns
        (ubs.filter fun ub => p.supportKey fromSha256 = ub.supportKey)) := by
  rw [applyUserBurns, indexBy_eq_findIdx _ hnodup, ok_bind]
  congr 1
  -- the index `indexBy` builds is the search over the sample's support keys
  refine foldl_applyUserBurn fromSha256 (fun k => ?_) hnodup ubs pts rfl
  rw [List.findIdx?_map]
  rfl

end Support

/-! ### The whole distribution -/

/-- One list passes its half of `ops_sanity_checks` when all its operations are
at one height and their `vtxindex`es strictly increase. -/
theorem opsInOrder_eq_true {ops : List (Nat × Nat)} (hheight : ∀ a ∈ ops, ∀ b ∈ ops, a.1 = b.1)
    (horder : ops.IsChain fun a b => a.2 < b.2) : opsInOrder ops = true := by
  match ops, hheight, horder with
  | [], _, _ => rfl
  | (height, v) :: rest, hheight, horder =>
    have hall : ((height, v) :: rest).all (fun op => op.1 == height) = true := by
      rw [List.all_eq_true]
      intro a ha
      simpa using hheight a ha (height, v) List.mem_cons_self
    simp only [opsInOrder, hall, Bool.true_and, decide_eq_true_eq]
    exact horder

/-- The operations of one burn-chain block as `make_distribution` expects them:
commits at one height in increasing `vtxindex` order, each consuming one of the
given leader keys; leader keys at distinct locations with distinct VRF keys;
user burns at one height in increasing `vtxindex` order. -/
structure BlockOps (bcs : List LeaderBlockCommitOp) (keys : List LeaderKeyRegisterOp)
    (ubs : List UserBurnSupportOp) : Prop where
  candidates_height : ∀ bc ∈ bcs, ∀ bc' ∈ bcs, bc.blockHeight = bc'.blockHeight
  candidates_order : bcs.IsChain fun bc bc' => bc.vtxindex < bc'.vtxindex
  userBurns_height : ∀ ub ∈ ubs, ∀ ub' ∈ ubs, ub.blockHeight = ub'.blockHeight
  userBurns_order : ubs.IsChain fun ub ub' => ub.vtxindex < ub'.vtxindex
  key_exists : ∀ bc ∈ bcs, ∃ k ∈ keys, k.location = bc.keyLocation
  locations_nodup : (keys.map (·.location)).Nodup
  publicKeys_nodup : (keys.map (·.publicKey)).Nodup

section Whole

variable {bcs : List LeaderBlockCommitOp} {keys : List LeaderKeyRegisterOp}
  {ubs : List UserBurnSupportOp}

theorem BlockOps.sanityChecks (hops : BlockOps bcs keys ubs) : opsSanityChecks bcs ubs = ok () := by
  have hbc : opsInOrder (bcs.map fun bc => (bc.blockHeight, bc.vtxindex)) = true := by
    apply opsInOrder_eq_true
    · simpa using hops.candidates_height
    · simpa [List.isChain_map] using hops.candidates_order
  have hub : opsInOrder (ubs.map fun ub => (ub.blockHeight, ub.vtxindex)) = true := by
    apply opsInOrder_eq_true
    · simpa using hops.userBurns_height
    · simpa [List.isChain_map] using hops.userBurns_order
  simp [opsSanityChecks, hbc, hub]

/-- The key map of well-formed operations holds, for each location, the position
of the key there. -/
theorem BlockOps.keyIndex (hops : BlockOps bcs keys ubs) :
    indexBy LeaderKeyRegisterOp.location 0 keys (fun _ => none) =
      ok fun l => keys.findIdx? fun k => decide (k.location = l) :=
  indexBy_eq_findIdx _ hops.locations_nodup

/-- The fresh points of distinct keys have distinct support keys: a VRF key names
one leader key, and so one key location. -/
theorem nodup_supportKey (fromSha256 : BlockHeaderHash → Hash160) {pts : List BurnSamplePoint}
    (hfresh : ∀ p ∈ pts, FreshPoint keys p) (hpk : (keys.map (·.publicKey)).Nodup)
    (hloc : (pts.map (·.candidate.keyLocation)).Nodup) :
    (pts.map (·.supportKey fromSha256)).Nodup := by
  rw [List.Nodup, List.pairwise_map] at hloc ⊢
  refine hloc.imp_of_mem fun {p q} hp hq hne hsk => hne ?_
  have hkey : p.key = q.key :=
    List.inj_on_of_nodup_map hpk (hfresh p hp).key_mem (hfresh q hq).key_mem
      (congrArg Prod.fst hsk)
  rw [← (hfresh p hp).key_location, ← (hfresh q hq).key_location, hkey]

/-- `make_distribution` of well-formed operations: one point per commit whose key
no earlier commit used, in commit order, carrying that key and exactly the user
burns that name it, with their fees added to the commit's burn. The ranges are
then those of `make_sortition_ranges`. -/
theorem makeDistribution_eq (fromSha256 : BlockHeaderHash → Hash160)
    (hops : BlockOps bcs keys ubs) (hne : bcs ≠ []) :
    ∃ pts, makeDistribution fromSha256 bcs keys ubs = makeSortitionRanges pts ∧
      pts.map (·.candidate) = firstUses [] bcs ∧
      ∀ p ∈ pts, p.key ∈ keys ∧ p.key.location = p.candidate.keyLocation ∧
        p.userBurns = ubs.filter (fun ub => p.supportKey fromSha256 = ub.supportKey) ∧
        p.burns = p.candidate.burnFee + (p.userBurns.map (·.burnFee)).sum := by
  have hlen : ¬ bcs.length = 0 := by simpa using hne
  -- every commit finds its key, at the position the key map records
  have hindex : ∀ l i, (keys.findIdx? fun k => decide (k.location = l)) = some i →
      ∃ h : i < keys.length, keys[i].location = l := by
    intro l i hi
    obtain ⟨h, hloc, -⟩ := List.findIdx?_eq_some_iff_getElem.mp hi
    exact ⟨h, by simpa using hloc⟩
  have hfound : ∀ bc ∈ bcs, (keys.findIdx? fun k => decide (k.location = bc.keyLocation)).isSome := by
    intro bc hbc
    obtain ⟨k, hk, hloc⟩ := hops.key_exists bc hbc
    rw [List.findIdx?_isSome, List.any_eq_true]
    exact ⟨k, hk, by simp [hloc]⟩
  have hall : (bcs.all fun bc => (keys.findIdx? fun k => decide (k.location = bc.keyLocation)).isSome) =
      true := List.all_eq_true.mpr hfound
  obtain ⟨pts, hrun, hmap, hfresh⟩ := consumeCandidates_eq keys hindex bcs [] hfound
  have hempty : (fun l => if l ∈ ([] : List KeyLocation) then none
      else keys.findIdx? fun k => decide (k.location = l)) =
        fun l => keys.findIdx? fun k => decide (k.location = l) := by
    funext l
    simp
  rw [hempty] at hrun
  have hsk : (pts.map (·.supportKey fromSha256)).Nodup := by
    refine nodup_supportKey fromSha256 hfresh hops.publicKeys_nodup ?_
    have := (nodup_firstUses [] bcs).1
    rwa [← hmap, List.map_map] at this
  refine ⟨pts.map fun p => p.withUserBurns
    (ubs.filter fun ub => p.supportKey fromSha256 = ub.supportKey), ?_, ?_, ?_⟩
  · simp only [makeDistribution, hlen, if_false, hops.sanityChecks, hops.keyIndex, ok_bind, hall,
      if_true, hrun, applyUserBurns_eq fromSha256 hsk]
  · rw [List.map_map, ← hmap]
    rfl
  · simp only [List.mem_map, forall_exists_index, and_imp]
    rintro _ p hp rfl
    have hp' := hfresh p hp
    rw [supportKey_withUserBurns]
    refine ⟨hp'.key_mem, hp'.key_location, ?_, ?_⟩
    · simp [BurnSamplePoint.withUserBurns, hp'.userBurns_eq]
    · simp [BurnSamplePoint.withUserBurns, hp'.userBurns_eq, hp'.burns_eq]

end Whole

/-! ### Sampling a distribution -/

section Sample

variable (mixVRFSeed : SortitionHash → VRFSeed → SortitionHash)

/-- On the exact slices of a positive total, the sampler picks a point whose slice
holds the sortition index, for every index below `2^256 - 1`. -/
theorem sampleBurnDistribution_sortitionRanges {ps : List BurnSamplePoint} (hne : ps ≠ [])
    (h0 : 0 < (ps.map (·.burns)).sum) (vrfSeed : VRFSeed) (sortitionHash : SortitionHash)
    (hindex : (mixVRFSeed sortitionHash vrfSeed).toUint256.toNat < 2 ^ 256 - 1) :
    ∃ i, ∃ h : i < (sortitionRanges (ps.map (·.burns)).sum 0 0 ps).length,
      sampleBurnDistribution mixVRFSeed (sortitionRanges (ps.map (·.burns)).sum 0 0 ps) vrfSeed
          sortitionHash = ok (some i) ∧
        (sortitionRanges (ps.map (·.burns)).sum 0 0 ps)[i].holds
          (mixVRFSeed sortitionHash vrfSeed).toUint256 = true := by
  obtain ⟨i, hi, hfind, hholds⟩ := findIdx_holds_sortitionRanges hne h0 _ hindex
  refine ⟨i, hi, ?_, hholds⟩
  have hlen0 : ¬ (sortitionRanges (ps.map (·.burns)).sum 0 0 ps).length = 0 := by
    simpa using hne
  by_cases hlen1 : (sortitionRanges (ps.map (·.burns)).sum 0 0 ps).length = 1
  -- a single point is returned without a look at its slice; it is the one found
  · have hi0 : i = 0 := by omega
    rw [sampleBurnDistribution, if_neg hlen0, if_pos hlen1, hi0]
  · simp only [sampleBurnDistribution, hlen0, hlen1, if_false, hfind]

/-- The sampler panics on the top sortition index `2^256 - 1` whenever the
distribution has two points or more: every slice is half-open and ends at most
at `2^256 - 1`, so none holds it, and the loop falls through to its `panic!`. -/
theorem sampleBurnDistribution_panics_on_top_index (dist : List BurnSamplePoint)
    (vrfSeed : VRFSeed) (sortitionHash : SortitionHash) (h2 : 2 ≤ dist.length)
    (htop : (mixVRFSeed sortitionHash vrfSeed).toUint256 = Uint256.max) :
    sampleBurnDistribution mixVRFSeed dist vrfSeed sortitionHash = .panic := by
  have hlen0 : ¬ dist.length = 0 := by omega
  have hlen1 : ¬ dist.length = 1 := by omega
  have hnone : dist.findIdx? (BurnSamplePoint.holds Uint256.max) = none :=
    List.findIdx?_eq_none_iff.mpr fun p _ => p.holds_max
  simp only [sampleBurnDistribution, hlen0, hlen1, if_false, htop, hnone]

end Sample

/-! ### The sortition of one block -/

section Sortition

variable {bcs : List LeaderBlockCommitOp} {keys : List LeaderKeyRegisterOp}
  {ubs : List UserBurnSupportOp}

end Sortition

/-- Two leader keys at `(1, 1)` and `(1, 2)`, with distinct VRF keys. -/
def twoKeys : List LeaderKeyRegisterOp :=
  [⟨.replicate 32 1, 1, 1⟩, ⟨.replicate 32 2, 2, 1⟩]

/-- Two commits at height 2, burning 1 each, on the keys of `twoKeys`. -/
def twoCommits : List LeaderBlockCommitOp :=
  [⟨.replicate 0, 1, 1, 1, 3, 2⟩, ⟨.replicate 0, 1, 2, 1, 4, 2⟩]

theorem blockOps_twoCommits : BlockOps twoCommits twoKeys [] where
  candidates_height := by decide
  candidates_order := by decide
  userBurns_height := by simp
  userBurns_order := by simp
  key_exists := by decide
  locations_nodup := by decide
  publicKeys_nodup := by decide

/-- `Uint512`'s `Div` on words panics on a zero divisor and otherwise is
`BitVec` division. -/
theorem Uint.div_refines (a b : Uint 8) :
    (a.div b >>= fun q => ok q.toBitVec) = Uint512.div a.toBitVec b.toBitVec := by
  rcases Uint.div_spec a b with ⟨hb, hdiv⟩ | ⟨hb, q, hdiv, hq⟩
  · have hzero : b.toBitVec = 0 := BitVec.eq_of_toNat_eq (by simp [Uint.toNat_toBitVec, hb])
    rw [hdiv, Uint512.div, if_pos hzero]
    rfl
  · have hne : b.toBitVec ≠ 0 := fun h => by
      have := congrArg BitVec.toNat h
      rw [Uint.toNat_toBitVec, show (0 : BitVec (64 * 8)).toNat = 0 from BitVec.toNat_zero] at this
      omega
    rw [hdiv, Uint512.div, if_neg hne, ok_bind]
    congr 1
    apply BitVec.eq_of_toNat_eq
    rw [Uint.toNat_toBitVec, hq, BitVec.toNat_udiv, Uint.toNat_toBitVec, Uint.toNat_toBitVec]

/-- On the code's words, `((Uint512::from_uint256(&Uint256::max()) * burn_acc)
/ total_burns).to_uint256()` is `sliceEnd total acc`: it does not panic, and
no step wraps while the total is below `2^64`. -/
theorem sliceEnd_words {total acc : Nat} (h0 : 0 < total) (h64 : total < 2 ^ 64) (hacc : acc ≤ total) :
    ∃ q, ((Uint.fromUint256 Uint.max).mul (Uint.fromU128 (BitVec.ofNat 128 acc))).div
        (Uint.fromU128 (BitVec.ofNat 128 total)) = ok q ∧
      (Uint.toUint256 q).toBitVec = sliceEnd total acc := by
  have hacc128 : acc < 2 ^ 128 := by omega
  have htotal128 : total < 2 ^ 128 := by omega
  -- the product `max * acc` of the loop, which fits 512 bits
  have hprod : Limbs.value ((Uint.fromUint256 Uint.max).mul (Uint.fromU128 (BitVec.ofNat 128 acc))).words =
      (2 ^ 256 - 1) * acc := by
    rw [Uint.value_mul, Uint.value_fromUint256, Uint.value_max, Uint.value_fromU128 (by decide),
      BitVec.toNat_ofNat, Nat.mod_eq_of_lt hacc128, Nat.mod_eq_of_lt (max_mul_lt_two_pow_512 (by omega))]
  have htotal : Limbs.value (Uint.fromU128 (BitVec.ofNat 128 total) : Uint 8).words = total := by
    rw [Uint.value_fromU128 (by decide), BitVec.toNat_ofNat, Nat.mod_eq_of_lt htotal128]
  rcases Uint.div_spec ((Uint.fromUint256 Uint.max).mul (Uint.fromU128 (BitVec.ofNat 128 acc)))
      (Uint.fromU128 (BitVec.ofNat 128 total)) with ⟨hb, -⟩ | ⟨-, q, hdiv, hq⟩
  · rw [htotal] at hb
    omega
  · refine ⟨q, hdiv, ?_⟩
    apply BitVec.eq_of_toNat_eq
    rw [Uint.toNat_toBitVec, Uint.value_toUint256, hq, hprod, htotal, sliceEnd, BitVec.toNat_ofNat]

/-- A point holding half of a total of two burns. -/
theorem sliceEnd_words_half :
    0 < 2 ∧ 2 < 2 ^ 64 ∧ 1 ≤ 2 ∧
      ∃ q, ((Uint.fromUint256 Uint.max).mul (Uint.fromU128 (BitVec.ofNat 128 1))).div
          (Uint.fromU128 (BitVec.ofNat 128 2)) = ok q ∧
        (Uint.toUint256 q).toBitVec = sliceEnd 2 1 :=
  ⟨by decide, by decide, by decide, sliceEnd_words (by decide) (by decide) (by decide)⟩

end BlockstackCore
