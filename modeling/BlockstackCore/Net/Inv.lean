import BlockstackCore.Net.Message
import BlockstackCore.Library.Bitmap

/-!
# Block inventories

`net/inv.rs`: what a node knows of a peer's blocks is a `PeerBlocksInv`, two
bitmaps indexed by sortition height (the burn height less
`first_block_height`), one for anchored blocks and one for confirmed
microblock streams. A `BlocksInv` reply of `bitlen` bits for the sortitions
from a target height on is or-ed into both by `merge_blocks_inv`, which grows
the bitmaps as it goes and counts the bits it learns;
`set_block_bit` and `set_microblocks_bit` merge a reply of one bit.

* `mergeBlocksInv_learns`: a merge that returns has or-ed the reply's window
  into both bitmaps and counted each bit that was clear before. It rests on
  one lemma per iteration of the loop (`merged_orInBit`, shared by the two
  bitmaps) and the loop by induction (`foldlM_mergeStep_cases`).
* `Valid`: the bitmaps have one length, and the bytes they hold are pinned
  by the number of sortitions known (`numSortitions / 8` or one more);
  `valid_mergeBlocksInv` keeps it.
* `mergeBlocksInv_eq_panic_iff`: on a valid inventory a merge panics only for
  a height below the first block, a bit vector shorter than `BITVEC_LEN!`,
  or an empty reply a full byte past the bitmap.
* `setBlockBit_flips`: `set_block_bit` returns whether the bit was clear,
  and sets that bit and no other.
* `runCalls_hasIthBlock`: over any run of merges and bit sets from an empty
  inventory, the inventory knows exactly what the calls reported.
* `blocksInv_exchange`: what a node serves, sent, read and merged, leaves
  the asking peer knowing exactly the node's blocks over the window asked.

The heights are `Nat`: `sortition_height + bitlen` overflows a `u64` only
for heights within `2 ^ 16` of `2 ^ 64`, which the model leaves out.
`get_epoch_time_secs()` is the parameter `now`.
-/

namespace BlockstackCore

open ByteCodec Outcome Bitmap

structure PeerBlocksInv where
  blockInv : Bytes
  microblocksInv : Bytes
  numSortitions : Nat
  lastUpdatedAt : Nat
  firstBlockHeight : Nat
  deriving DecidableEq, Repr

namespace PeerBlocksInv

def empty (firstBlockHeight : Nat) : PeerBlocksInv := ⟨[], [], 0, 0, firstBlockHeight⟩

/-- `PeerBlocksInv::new`, whose `assert_eq!` wants bitmaps of one length. -/
def new (blockInv microblocksInv : Bytes) (numSortitions firstBlockHeight now : Nat) :
    Outcome Empty PeerBlocksInv :=
  if blockInv.length = microblocksInv.length then ok ⟨blockInv, microblocksInv, numSortitions, now, firstBlockHeight⟩
  else panic

/-- The body of `has_ith_block` and `has_ith_microblock_stream`, over the
bitmap each reads. -/
def hasIthBit (inv : Bytes) (firstBlockHeight blockHeight : Nat) : Bool :=
  if blockHeight < firstBlockHeight then false
  else
    let sortitionHeight := blockHeight - firstBlockHeight
    let idx := sortitionHeight / 8
    let bit := sortitionHeight % 8
    if idx ≥ inv.length then false
    else testByte (inv.getD idx 0) bit

def hasIthBlock (self : PeerBlocksInv) (blockHeight : Nat) : Bool :=
  hasIthBit self.blockInv self.firstBlockHeight blockHeight

def hasIthMicroblockStream (self : PeerBlocksInv) (blockHeight : Nat) : Bool :=
  hasIthBit self.microblocksInv self.firstBlockHeight blockHeight

/-- The variables of the loop of `merge_blocks_inv`. -/
structure MergeState where
  blockInv : Bytes
  microblocksInv : Bytes
  insertIndex : Nat
  newBlocks : Nat
  newMicroblocks : Nat

/-- `if set_idx >= inv.len() { inv.resize(set_idx + 1, 0) }`, done to each
bitmap. -/
def growFor (inv : Bytes) (setIdx : Nat) : Bytes :=
  if setIdx ≥ inv.length then resize inv (setIdx + 1) else inv

/-- One bitmap's part of an iteration: an incoming bit that is set is
counted if the bitmap had it clear, then or-ed in. -/
def orInBit (inv : Bytes) (newCount setIdx setBit : Nat) (isSet : Bool) : Bytes × Nat :=
  if isSet then
    let newCount := if (inv.getD setIdx 0 &&& mask setBit) == 0 then newCount + 1 else newCount
    (inv.modify setIdx (· ||| mask setBit), newCount)
  else (inv, newCount)

/-- Iteration `i` of the loop: bit `i` of each bit vector, whose byte must be
there, goes to `insert_index`. -/
def mergeStep (blockBitvec microblocksBitvec : Bytes) (s : MergeState) (i : Nat) : Outcome Empty MergeState := do
  let idx := i / 8
  let bit := i % 8
  let blockByte ← expect blockBitvec[idx]?
  let blockSet := testByte blockByte bit
  let microblockByte ← expect microblocksBitvec[idx]?
  let microblockSet := testByte microblockByte bit
  let setIdx := s.insertIndex / 8
  let setBit := s.insertIndex % 8
  let blockInv := growFor s.blockInv setIdx
  let microblocksInv := growFor s.microblocksInv setIdx
  let (blockInv, newBlocks) := orInBit blockInv s.newBlocks setIdx setBit blockSet
  let (microblocksInv, newMicroblocks) := orInBit microblocksInv s.newMicroblocks setIdx setBit microblockSet
  ok ⟨blockInv, microblocksInv, s.insertIndex + 1, newBlocks, newMicroblocks⟩

/-- `merge_blocks_inv`: the counts of new blocks and new microblock streams,
and the inventory after. -/
def mergeBlocksInv (self : PeerBlocksInv) (now blockHeight bitlen : Nat) (blockBitvec microblocksBitvec : Bytes) :
    Outcome Empty ((Nat × Nat) × PeerBlocksInv) :=
  if blockHeight < self.firstBlockHeight then panic
  else do
    let sortitionHeight := blockHeight - self.firstBlockHeight
    let numSortitions :=
      if self.numSortitions < sortitionHeight + bitlen then sortitionHeight + bitlen else self.numSortitions
    let s ← (List.range bitlen).foldlM (mergeStep blockBitvec microblocksBitvec)
      ⟨self.blockInv, self.microblocksInv, sortitionHeight, 0, 0⟩
    if s.insertIndex / 8 ≤ s.blockInv.length then
      if numSortitions / 8 ≤ s.blockInv.length then
        ok ((s.newBlocks, s.newMicroblocks),
          { self with blockInv := s.blockInv, microblocksInv := s.microblocksInv, numSortitions := numSortitions,
                      lastUpdatedAt := now })
      else panic
    else panic

def setBlockBit (self : PeerBlocksInv) (now blockHeight : Nat) : Outcome Empty (Bool × PeerBlocksInv) := do
  let ((newBlocks, _), inv) ← self.mergeBlocksInv now blockHeight 1 [0x01] [0x00]
  ok (newBlocks != 0, inv)

def setMicroblocksBit (self : PeerBlocksInv) (now blockHeight : Nat) : Outcome Empty (Bool × PeerBlocksInv) := do
  let ((_, newMblocks), inv) ← self.mergeBlocksInv now blockHeight 1 [0x00] [0x01]
  ok (newMblocks != 0, inv)

/-! ### Reading a bit -/

theorem hasIthBit_eq (inv : Bytes) (firstBlockHeight blockHeight : Nat) :
    hasIthBit inv firstBlockHeight blockHeight =
      (decide (firstBlockHeight ≤ blockHeight) && get inv (blockHeight - firstBlockHeight)) := by
  unfold hasIthBit
  by_cases hlow : blockHeight < firstBlockHeight
  · simp [hlow]
  · rw [if_neg hlow, decide_eq_true (Nat.le_of_not_lt hlow), Bool.true_and]
    dsimp only
    split
    · exact (get_of_length_le ‹_›).symm
    · rfl

theorem hasIthBlock_eq (self : PeerBlocksInv) (blockHeight : Nat) :
    self.hasIthBlock blockHeight =
      (decide (self.firstBlockHeight ≤ blockHeight) && get self.blockInv (blockHeight - self.firstBlockHeight)) :=
  hasIthBit_eq _ _ _

theorem hasIthMicroblockStream_eq (self : PeerBlocksInv) (blockHeight : Nat) :
    self.hasIthMicroblockStream blockHeight =
      (decide (self.firstBlockHeight ≤ blockHeight) &&
        get self.microblocksInv (blockHeight - self.firstBlockHeight)) :=
  hasIthBit_eq _ _ _

/-! ### One iteration -/

/-- One bitmap after the loop has read bits `s, …, s + k - 1` of `bv` into
`ins, …, ins + k - 1`: those bits are or-ed in, the bitmap has grown to hold
them, and each that was clear has been counted. -/
structure Merged (bv : Bytes) (ins s k : Nat) (inv : Bytes) (count : Nat) (inv' : Bytes) (count' : Nat) : Prop where
  get_eq : ∀ H, get inv' H = (get inv H || decide (ins ≤ H ∧ H < ins + k) && get bv (s + (H - ins)))
  length_eq : inv'.length = if k = 0 then inv.length else max inv.length ((ins + k - 1) / 8 + 1)
  count_eq : count' = count + (List.range' s k).countP fun i => get bv i && !get inv (ins + (i - s))

/-- The whole state after the loop has read bits `s, …, s + k - 1`. -/
structure Looped (bv mbv : Bytes) (st : MergeState) (s k : Nat) (st' : MergeState) : Prop where
  insertIndex_eq : st'.insertIndex = st.insertIndex + k
  blocks : Merged bv st.insertIndex s k st.blockInv st.newBlocks st'.blockInv st'.newBlocks
  microblocks : Merged mbv st.insertIndex s k st.microblocksInv st.newMicroblocks st'.microblocksInv
    st'.newMicroblocks

theorem Merged.refl (bv : Bytes) (ins s : Nat) (inv : Bytes) (count : Nat) : Merged bv ins s 0 inv count inv count where
  get_eq H := by
    have hout : decide (ins ≤ H ∧ H < ins + 0) = false := decide_eq_false (by omega)
    rw [hout, Bool.false_and, Bool.or_false]
  length_eq := rfl
  count_eq := rfl

/-- A first bit, then `k` more: the windows join and the counts add, since a
later bit is never the position the first one set. -/
theorem Merged.trans {bv : Bytes} {ins s k : Nat} {inv inv₁ inv' : Bytes} {count count₁ count' : Nat}
    (h₁ : Merged bv ins s 1 inv count inv₁ count₁) (h₂ : Merged bv (ins + 1) (s + 1) k inv₁ count₁ inv' count') :
    Merged bv ins s (k + 1) inv count inv' count' where
  get_eq H := by
    rw [h₂.get_eq, h₁.get_eq]
    rcases Nat.lt_trichotomy H ins with hlt | rfl | hgt
    · have h₁out : decide (ins ≤ H ∧ H < ins + 1) = false := decide_eq_false (by omega)
      have h₂out : decide (ins + 1 ≤ H ∧ H < ins + 1 + k) = false := decide_eq_false (by omega)
      have hout : decide (ins ≤ H ∧ H < ins + (k + 1)) = false := decide_eq_false (by omega)
      rw [h₁out, h₂out, hout]
      simp
    · simp
    · have h₁out : decide (ins ≤ H ∧ H < ins + 1) = false := decide_eq_false (by omega)
      have hidx : s + 1 + (H - (ins + 1)) = s + (H - ins) := by omega
      have hwin : decide (ins + 1 ≤ H ∧ H < ins + 1 + k) = decide (ins ≤ H ∧ H < ins + (k + 1)) := by
        apply decide_eq_decide.mpr
        omega
      rw [h₁out, Bool.false_and, Bool.or_false, hidx, hwin]
  length_eq := by
    rw [h₂.length_eq, h₁.length_eq]
    split <;> simp only [if_neg (Nat.succ_ne_zero k), if_neg (Nat.succ_ne_zero 0)] <;> omega
  count_eq := by
    have hsame : ∀ i ∈ List.range' (s + 1) k,
        (get bv i && !get inv₁ (ins + 1 + (i - (s + 1)))) = (get bv i && !get inv (ins + (i - s))) := by
      intro i hi
      have hi' := List.mem_range'_1.mp hi
      have hpos : ins + 1 + (i - (s + 1)) = ins + (i - s) := by omega
      have hne : decide (ins ≤ ins + (i - s) ∧ ins + (i - s) < ins + 1) = false := decide_eq_false (by omega)
      rw [hpos, h₁.get_eq, hne, Bool.false_and, Bool.or_false]
    have hcongr : (List.range' (s + 1) k).countP (fun i => get bv i && !get inv₁ (ins + 1 + (i - (s + 1)))) =
        (List.range' (s + 1) k).countP (fun i => get bv i && !get inv (ins + (i - s))) :=
      List.countP_congr fun i hi => by rw [hsame i hi]
    rw [h₂.count_eq, h₁.count_eq, hcongr]
    simp only [List.range'_succ, List.range'_zero, List.countP_cons, List.countP_nil]
    omega

theorem Looped.refl (bv mbv : Bytes) (st : MergeState) (s : Nat) : Looped bv mbv st s 0 st :=
  ⟨rfl, Merged.refl _ _ _ _ _, Merged.refl _ _ _ _ _⟩

theorem Looped.trans {bv mbv : Bytes} {st st₁ st' : MergeState} {s k : Nat} (h₁ : Looped bv mbv st s 1 st₁)
    (h₂ : Looped bv mbv st₁ (s + 1) k st') : Looped bv mbv st s (k + 1) st' := by
  have hins := h₁.insertIndex_eq
  refine ⟨by rw [h₂.insertIndex_eq, hins]; omega, ?_, ?_⟩
  · exact h₁.blocks.trans (by rw [← hins]; exact h₂.blocks)
  · exact h₁.microblocks.trans (by rw [← hins]; exact h₂.microblocks)

theorem get_growFor (inv : Bytes) (setIdx H : Nat) : get (growFor inv setIdx) H = get inv H := by
  unfold growFor
  split
  · exact get_resize (by omega) H
  · rfl

theorem length_growFor (inv : Bytes) (setIdx : Nat) : (growFor inv setIdx).length = max inv.length (setIdx + 1) := by
  unfold growFor
  split
  · rw [length_resize]
    omega
  · omega

theorem beq_zero_eq_not_testByte (b : UInt8) (k : Nat) : ((b &&& mask k) == 0) = !testByte b k := by
  rw [testByte, bne, Bool.not_not]

/-- One bitmap's half of an iteration, for the bit the iteration read. -/
theorem merged_orInBit (bv : Bytes) (ins s : Nat) (inv : Bytes) (count : Nat) :
    Merged bv ins s 1 inv count (orInBit (growFor inv (ins / 8)) count (ins / 8) (ins % 8) (get bv s)).1
      (orInBit (growFor inv (ins / 8)) count (ins / 8) (ins % 8) (get bv s)).2 := by
  have hlen := length_growFor inv (ins / 8)
  have hcount : (List.range' s 1).countP (fun i => get bv i && !get inv (ins + (i - s))) =
      if get bv s && !get inv ins then 1 else 0 := by
    simp [List.range'_succ]
  have hwin : ∀ H, H ≠ ins → decide (ins ≤ H ∧ H < ins + 1) = false := fun H hH => decide_eq_false (by omega)
  unfold orInBit
  cases hset : get bv s
  · simp only [Bool.false_eq_true, if_false]
    refine ⟨fun H => ?_, by simp [hlen], by simp [hset]⟩
    by_cases hH : H = ins
    · subst hH
      simp [get_growFor, hset]
    · rw [get_growFor, hwin H hH, Bool.false_and, Bool.or_false]
  · have hin : ins / 8 < (growFor inv (ins / 8)).length := by omega
    have hbyte : (((growFor inv (ins / 8)).getD (ins / 8) 0 &&& mask (ins % 8)) == 0) = !Bitmap.get inv ins := by
      rw [beq_zero_eq_not_testByte, ← get_growFor inv (ins / 8) ins]
      rfl
    simp only [if_true, hbyte]
    refine ⟨fun H => ?_, ?_, ?_⟩
    · show get (setBit (growFor inv (ins / 8)) ins) H = _
      rw [get_setBit hin, get_growFor]
      by_cases hH : H = ins
      · subst hH
        simp [hset]
      · rw [hwin H hH, decide_eq_false hH, Bool.false_and]
    · show (setBit (growFor inv (ins / 8)) ins).length = _
      rw [length_setBit, hlen]
      simp
    · rw [hcount]
      cases Bitmap.get inv ins <;> simp [hset]

/-- Everything an iteration can do: panic on a bit vector too short for
bit `s`, or read bit `s` of both into `insert_index`. -/
theorem mergeStep_cases (bv mbv : Bytes) (st : MergeState) (s : Nat) :
    (mergeStep bv mbv st s = panic ∧ (bv.length ≤ s / 8 ∨ mbv.length ≤ s / 8)) ∨
      (∃ st', mergeStep bv mbv st s = ok st' ∧ s / 8 < bv.length ∧ s / 8 < mbv.length ∧ Looped bv mbv st s 1 st') := by
  cases hb : bv[s / 8]? with
  | none =>
    left
    refine ⟨by simp [mergeStep, hb], .inl (List.getElem?_eq_none_iff.mp hb)⟩
  | some b =>
    have hblen : s / 8 < bv.length := (List.getElem?_eq_some_iff.mp hb).1
    have hbit : testByte b (s % 8) = Bitmap.get bv s := by
      rw [Bitmap.get, List.getD_eq_getElem?_getD, hb, Option.getD_some]
    cases hm : mbv[s / 8]? with
    | none =>
      left
      refine ⟨by simp [mergeStep, hb, hm], .inr (List.getElem?_eq_none_iff.mp hm)⟩
    | some m =>
      have hmlen : s / 8 < mbv.length := (List.getElem?_eq_some_iff.mp hm).1
      have hmbit : testByte m (s % 8) = Bitmap.get mbv s := by
        rw [Bitmap.get, List.getD_eq_getElem?_getD, hm, Option.getD_some]
      right
      refine ⟨_, by simp only [mergeStep, hb, hm, expect_some, ok_bind]; rfl, hblen, hmlen, rfl, ?_, ?_⟩
      · rw [hbit]
        exact merged_orInBit bv st.insertIndex s st.blockInv st.newBlocks
      · rw [hmbit]
        exact merged_orInBit mbv st.insertIndex s st.microblocksInv st.newMicroblocks

/-! ### The loop -/

/-- Everything the loop over bits `s, …, s + k - 1` can do, by induction on
`k`: panic at the first bit whose byte is missing, or read them all. -/
theorem foldlM_mergeStep_cases (bv mbv : Bytes) : ∀ (k s : Nat) (st : MergeState),
    ((List.range' s k).foldlM (mergeStep bv mbv) st = panic ∧ 0 < k ∧
        (8 * bv.length < s + k ∨ 8 * mbv.length < s + k)) ∨
      (∃ st', (List.range' s k).foldlM (mergeStep bv mbv) st = ok st' ∧
        (k = 0 ∨ s + k ≤ 8 * bv.length ∧ s + k ≤ 8 * mbv.length) ∧ Looped bv mbv st s k st')
  | 0, s, st => .inr ⟨st, rfl, .inl rfl, Looped.refl bv mbv st s⟩
  | k + 1, s, st => by
    rw [List.range'_succ, List.foldlM_cons]
    rcases mergeStep_cases bv mbv st s with ⟨hp, hshort⟩ | ⟨st₁, hst₁, hb, hm, hl₁⟩
    · left
      rw [hp]
      exact ⟨rfl, Nat.succ_pos k, by omega⟩
    · rw [hst₁]
      rcases foldlM_mergeStep_cases bv mbv k (s + 1) st₁ with ⟨hp, -, hshort⟩ | ⟨st', hst', hlen, hl⟩
      · left
        exact ⟨hp, Nat.succ_pos k, by omega⟩
      · right
        exact ⟨st', hst', .inr (by omega), hl₁.trans hl⟩

/-! ### A merge -/

theorem mergeBlocksInv_of_le {self : PeerBlocksInv} {blockHeight : Nat} (hh : self.firstBlockHeight ≤ blockHeight)
    (now bitlen : Nat) (bv mbv : Bytes) :
    self.mergeBlocksInv now blockHeight bitlen bv mbv =
      ((List.range' 0 bitlen).foldlM (mergeStep bv mbv)
          ⟨self.blockInv, self.microblocksInv, blockHeight - self.firstBlockHeight, 0, 0⟩ >>= fun s =>
        if s.insertIndex / 8 ≤ s.blockInv.length ∧
            max self.numSortitions (blockHeight - self.firstBlockHeight + bitlen) / 8 ≤ s.blockInv.length then
          ok ((s.newBlocks, s.newMicroblocks),
            { self with blockInv := s.blockInv, microblocksInv := s.microblocksInv,
                        numSortitions := max self.numSortitions (blockHeight - self.firstBlockHeight + bitlen),
                        lastUpdatedAt := now })
        else panic) := by
  have hmax : (if self.numSortitions < blockHeight - self.firstBlockHeight + bitlen then
      blockHeight - self.firstBlockHeight + bitlen else self.numSortitions) =
      max self.numSortitions (blockHeight - self.firstBlockHeight + bitlen) := by
    split <;> omega
  rw [mergeBlocksInv, if_neg (Nat.not_lt.mpr hh), ← List.range_eq_range']
  simp only [hmax, ite_and]

/-- What a merge that returns has done: the loop read every bit of the
reply, and both assertions held. -/
theorem mergeBlocksInv_ok_cases {self inv' : PeerBlocksInv} {now blockHeight bitlen : Nat} {bv mbv : Bytes}
    {counts : Nat × Nat} (h : self.mergeBlocksInv now blockHeight bitlen bv mbv = ok (counts, inv')) :
    self.firstBlockHeight ≤ blockHeight ∧ ∃ st,
      Looped bv mbv ⟨self.blockInv, self.microblocksInv, blockHeight - self.firstBlockHeight, 0, 0⟩ 0 bitlen st ∧
      (bitlen = 0 ∨ bitlen ≤ 8 * bv.length ∧ bitlen ≤ 8 * mbv.length) ∧
      st.insertIndex / 8 ≤ st.blockInv.length ∧
      max self.numSortitions (blockHeight - self.firstBlockHeight + bitlen) / 8 ≤ st.blockInv.length ∧
      counts = (st.newBlocks, st.newMicroblocks) ∧
      inv' = { self with blockInv := st.blockInv, microblocksInv := st.microblocksInv,
                         numSortitions := max self.numSortitions (blockHeight - self.firstBlockHeight + bitlen),
                         lastUpdatedAt := now } := by
  by_cases hh : blockHeight < self.firstBlockHeight
  · rw [mergeBlocksInv, if_pos hh] at h
    cases h
  have hle := Nat.le_of_not_lt hh
  rw [mergeBlocksInv_of_le hle] at h
  rcases foldlM_mergeStep_cases bv mbv bitlen 0
      ⟨self.blockInv, self.microblocksInv, blockHeight - self.firstBlockHeight, 0, 0⟩ with
    ⟨hp, -⟩ | ⟨st, hst, hlen, hl⟩
  · rw [hp] at h
    cases h
  · rw [hst, ok_bind] at h
    split at h
    · rename_i hassert
      simp only [ok.injEq, Prod.mk.injEq] at h
      exact ⟨hle, st, hl, by simpa using hlen, hassert.1, hassert.2, h.1.symm, h.2.symm⟩
    · cases h

/-- The window of a reply at sortition heights, read at burn heights. -/
theorem window_at_height {firstBlockHeight blockHeight bitlen : Nat} (hh : firstBlockHeight ≤ blockHeight)
    (H : Nat) (b : Bool) (f : Nat → Bool) :
    (decide (firstBlockHeight ≤ H) &&
        (b || decide (blockHeight - firstBlockHeight ≤ H - firstBlockHeight ∧
            H - firstBlockHeight < blockHeight - firstBlockHeight + bitlen) &&
          f (0 + (H - firstBlockHeight - (blockHeight - firstBlockHeight))))) =
      ((decide (firstBlockHeight ≤ H) && b) || decide (blockHeight ≤ H ∧ H < blockHeight + bitlen) &&
        f (H - blockHeight)) := by
  by_cases hlow : firstBlockHeight ≤ H
  · have hwin : decide (blockHeight - firstBlockHeight ≤ H - firstBlockHeight ∧
        H - firstBlockHeight < blockHeight - firstBlockHeight + bitlen) =
        decide (blockHeight ≤ H ∧ H < blockHeight + bitlen) := decide_eq_decide.mpr (by omega)
    rw [decide_eq_true hlow, Bool.true_and, Bool.true_and, hwin]
    by_cases hin : blockHeight ≤ H
    · rw [show 0 + (H - firstBlockHeight - (blockHeight - firstBlockHeight)) = H - blockHeight by omega]
    · rw [decide_eq_false (fun h => hin h.1), Bool.false_and, Bool.false_and]
  · have hout : decide (blockHeight ≤ H ∧ H < blockHeight + bitlen) = false := decide_eq_false (by omega)
    rw [decide_eq_false hlow, Bool.false_and, Bool.false_and, hout, Bool.false_and, Bool.or_false]

theorem hasIthBit_add (inv : Bytes) {firstBlockHeight blockHeight : Nat} (hh : firstBlockHeight ≤ blockHeight)
    (i : Nat) : hasIthBit inv firstBlockHeight (blockHeight + i) = get inv (blockHeight - firstBlockHeight + i) := by
  rw [hasIthBit_eq, decide_eq_true (by omega), Bool.true_and, Nat.sub_add_comm hh]

theorem hasIthBlock_of_mergeBlocksInv {self inv' : PeerBlocksInv} {now blockHeight bitlen : Nat} {bv mbv : Bytes}
    {counts : Nat × Nat} (h : self.mergeBlocksInv now blockHeight bitlen bv mbv = ok (counts, inv')) (H : Nat) :
    inv'.hasIthBlock H =
      (self.hasIthBlock H || decide (blockHeight ≤ H ∧ H < blockHeight + bitlen) && get bv (H - blockHeight)) := by
  obtain ⟨hh, st, hl, -, -, -, -, rfl⟩ := mergeBlocksInv_ok_cases h
  rw [hasIthBlock_eq, hasIthBlock_eq]
  exact (congrArg _ (hl.blocks.get_eq _)).trans (window_at_height hh H _ _)

theorem hasIthMicroblockStream_of_mergeBlocksInv {self inv' : PeerBlocksInv} {now blockHeight bitlen : Nat}
    {bv mbv : Bytes} {counts : Nat × Nat} (h : self.mergeBlocksInv now blockHeight bitlen bv mbv = ok (counts, inv'))
    (H : Nat) :
    inv'.hasIthMicroblockStream H =
      (self.hasIthMicroblockStream H || decide (blockHeight ≤ H ∧ H < blockHeight + bitlen) &&
        get mbv (H - blockHeight)) := by
  obtain ⟨hh, st, hl, -, -, -, -, rfl⟩ := mergeBlocksInv_ok_cases h
  rw [hasIthMicroblockStream_eq, hasIthMicroblockStream_eq]
  exact (congrArg _ (hl.microblocks.get_eq _)).trans (window_at_height hh H _ _)

/-- The counts a merge returns: the bits of the reply that were clear in
the inventory. -/
theorem counts_of_mergeBlocksInv {self inv' : PeerBlocksInv} {now blockHeight bitlen : Nat} {bv mbv : Bytes}
    {counts : Nat × Nat} (h : self.mergeBlocksInv now blockHeight bitlen bv mbv = ok (counts, inv')) :
    counts = ((List.range bitlen).countP (fun i => get bv i && !self.hasIthBlock (blockHeight + i)),
      (List.range bitlen).countP (fun i => get mbv i && !self.hasIthMicroblockStream (blockHeight + i))) := by
  obtain ⟨hh, st, hl, -, -, -, rfl, -⟩ := mergeBlocksInv_ok_cases h
  rw [hl.blocks.count_eq, hl.microblocks.count_eq, List.range_eq_range']
  simp only [Nat.zero_add, Nat.sub_zero, hasIthBlock, hasIthMicroblockStream, hasIthBit_add _ hh]

/-- A merge that returns has or-ed the reply's window into both bitmaps,
read at burn heights, and counted each bit it set that was clear. -/
theorem mergeBlocksInv_learns {self inv' : PeerBlocksInv} {now blockHeight bitlen : Nat}
    {blockBitvec microblocksBitvec : Bytes} {newBlocks newMicroblocks : Nat}
    (h : self.mergeBlocksInv now blockHeight bitlen blockBitvec microblocksBitvec =
      ok ((newBlocks, newMicroblocks), inv')) :
    (∀ H, inv'.hasIthBlock H = (self.hasIthBlock H ||
      decide (blockHeight ≤ H ∧ H < blockHeight + bitlen) && get blockBitvec (H - blockHeight))) ∧
    (∀ H, inv'.hasIthMicroblockStream H = (self.hasIthMicroblockStream H ||
      decide (blockHeight ≤ H ∧ H < blockHeight + bitlen) && get microblocksBitvec (H - blockHeight))) ∧
    newBlocks = (List.range bitlen).countP (fun i => get blockBitvec i && !self.hasIthBlock (blockHeight + i)) ∧
    newMicroblocks =
      (List.range bitlen).countP (fun i => get microblocksBitvec i && !self.hasIthMicroblockStream (blockHeight + i)) := by
  have hcounts := counts_of_mergeBlocksInv h
  simp only [Prod.mk.injEq] at hcounts
  exact ⟨hasIthBlock_of_mergeBlocksInv h, hasIthMicroblockStream_of_mergeBlocksInv h, hcounts.1, hcounts.2⟩

theorem mergeBlocksInv_learns_one :
    (empty 0).mergeBlocksInv 0 5 1 [0x01] [0x00] = ok ((1, 0), ⟨[0x20], [0x00], 6, 0, 0⟩) ∧
      (∀ H, (⟨[0x20], [0x00], 6, 0, 0⟩ : PeerBlocksInv).hasIthBlock H = ((empty 0).hasIthBlock H ||
        decide (5 ≤ H ∧ H < 5 + 1) && get [0x01] (H - 5))) ∧
      (∀ H, (⟨[0x20], [0x00], 6, 0, 0⟩ : PeerBlocksInv).hasIthMicroblockStream H =
        ((empty 0).hasIthMicroblockStream H || decide (5 ≤ H ∧ H < 5 + 1) && get [0x00] (H - 5))) ∧
      1 = (List.range 1).countP (fun i => get [0x01] i && !(empty 0).hasIthBlock (5 + i)) ∧
      0 = (List.range 1).countP (fun i => get [0x00] i && !(empty 0).hasIthMicroblockStream (5 + i)) :=
  ⟨by decide, @mergeBlocksInv_learns _ _ 0 _ _ _ _ _ _ (by decide)⟩

/-! ### The invariant -/

/-- The bitmaps have one length, and it is pinned by the sortitions known:
`numSortitions / 8` bytes, or one more. -/
structure Valid (inv : PeerBlocksInv) : Prop where
  length_eq : inv.microblocksInv.length = inv.blockInv.length
  numSortitions_le : inv.numSortitions / 8 ≤ inv.blockInv.length
  length_le : inv.blockInv.length ≤ inv.numSortitions / 8 + 1

theorem valid_empty (firstBlockHeight : Nat) : (empty firstBlockHeight).Valid :=
  ⟨rfl, by simp [empty], by simp [empty]⟩

theorem valid_mergeBlocksInv {self inv' : PeerBlocksInv} (hv : self.Valid) {now blockHeight bitlen : Nat}
    {bv mbv : Bytes} {counts : Nat × Nat} (h : self.mergeBlocksInv now blockHeight bitlen bv mbv = ok (counts, inv')) :
    inv'.Valid := by
  obtain ⟨-, st, hl, -, -, hns, -, rfl⟩ := mergeBlocksInv_ok_cases h
  have hb := hl.blocks.length_eq
  have hm := hl.microblocks.length_eq
  have hle := hv.length_le
  have hwin := le_max_right self.numSortitions (blockHeight - self.firstBlockHeight + bitlen)
  have hold := le_max_left self.numSortitions (blockHeight - self.firstBlockHeight + bitlen)
  dsimp only at hb hm
  rw [hv.length_eq] at hm
  refine ⟨hm.trans hb.symm, hns, ?_⟩
  dsimp only
  rw [hb]
  split <;> omega

theorem lt_bitvecLen_iff (m n : Nat) : m < bitvecLen n ↔ 8 * m < n := by
  unfold bitvecLen
  split <;> omega

/-- A merge panics on a height below the first block, on a bit vector too
short for `bitlen` bits, or on an empty reply a full byte past the bitmap. -/
theorem mergeBlocksInv_eq_panic_of {self : PeerBlocksInv} (hv : self.Valid) {now blockHeight bitlen : Nat}
    {bv mbv : Bytes}
    (h : blockHeight < self.firstBlockHeight ∨ bv.length < bitvecLen bitlen ∨ mbv.length < bitvecLen bitlen ∨
      bitlen = 0 ∧ self.blockInv.length < (blockHeight - self.firstBlockHeight) / 8) :
    self.mergeBlocksInv now blockHeight bitlen bv mbv = panic := by
  by_cases hh : blockHeight < self.firstBlockHeight
  · rw [mergeBlocksInv, if_pos hh]
  rw [mergeBlocksInv_of_le (Nat.le_of_not_lt hh)]
  rw [lt_bitvecLen_iff, lt_bitvecLen_iff] at h
  have hns := hv.numSortitions_le
  rcases foldlM_mergeStep_cases bv mbv bitlen 0
      ⟨self.blockInv, self.microblocksInv, blockHeight - self.firstBlockHeight, 0, 0⟩ with
    ⟨hp, -⟩ | ⟨st, hst, hlen, hl⟩
  · rw [hp]
    rfl
  · have hb := hl.blocks.length_eq
    have hins := hl.insertIndex_eq
    dsimp only at hb hins
    rw [hst, ok_bind, if_neg]
    split at hb <;> omega

/-- On a valid inventory, a merge that none of those cases rules out returns. -/
theorem exists_mergeBlocksInv_eq_ok {self : PeerBlocksInv} (hv : self.Valid) {now blockHeight bitlen : Nat}
    {bv mbv : Bytes}
    (h : ¬ (blockHeight < self.firstBlockHeight ∨ bv.length < bitvecLen bitlen ∨ mbv.length < bitvecLen bitlen ∨
      bitlen = 0 ∧ self.blockInv.length < (blockHeight - self.firstBlockHeight) / 8)) :
    ∃ r, self.mergeBlocksInv now blockHeight bitlen bv mbv = ok r := by
  rw [lt_bitvecLen_iff, lt_bitvecLen_iff] at h
  have hh : self.firstBlockHeight ≤ blockHeight := by omega
  have hns := hv.numSortitions_le
  rw [mergeBlocksInv_of_le hh]
  rcases foldlM_mergeStep_cases bv mbv bitlen 0
      ⟨self.blockInv, self.microblocksInv, blockHeight - self.firstBlockHeight, 0, 0⟩ with
    ⟨-, -, hshort⟩ | ⟨st, hst, -, hl⟩
  · omega
  · have hb := hl.blocks.length_eq
    have hins := hl.insertIndex_eq
    dsimp only at hb hins
    rw [hst, ok_bind, if_pos]
    · exact ⟨_, rfl⟩
    · split at hb <;> omega

/-- On a valid inventory, a merge panics exactly for a height below the
first block, a bit vector shorter than `BITVEC_LEN!(bitlen)`, or an empty
reply whose height lies a full byte past the bitmap. -/
theorem mergeBlocksInv_eq_panic_iff {self : PeerBlocksInv} (hv : self.Valid) (now blockHeight bitlen : Nat)
    (blockBitvec microblocksBitvec : Bytes) :
    self.mergeBlocksInv now blockHeight bitlen blockBitvec microblocksBitvec = panic ↔
      blockHeight < self.firstBlockHeight ∨ blockBitvec.length < bitvecLen bitlen ∨
        microblocksBitvec.length < bitvecLen bitlen ∨
        bitlen = 0 ∧ self.blockInv.length < (blockHeight - self.firstBlockHeight) / 8 := by
  constructor
  · intro h
    by_contra hnot
    obtain ⟨r, hr⟩ := exists_mergeBlocksInv_eq_ok hv hnot
    rw [hr] at h
    cases h
  · exact mergeBlocksInv_eq_panic_of hv

/-- An empty reply at a height two bytes past an empty bitmap panics. -/
theorem mergeBlocksInv_eq_panic_iff_empty :
    (empty 0).Valid ∧
      ((empty 0).mergeBlocksInv 0 16 0 [] [] = panic ↔
        16 < 0 ∨ ([] : Bytes).length < bitvecLen 0 ∨ ([] : Bytes).length < bitvecLen 0 ∨
          0 = 0 ∧ ([] : Bytes).length < (16 - 0) / 8) :=
  ⟨valid_empty 0, mergeBlocksInv_eq_panic_iff (valid_empty 0) 0 16 0 [] []⟩

/-! ### Setting one bit -/

/-- The reply of one bit that `set_block_bit` and `set_microblocks_bit`
merge: `vec![0x01]` marks its height, `vec![0x00]` marks none. -/
theorem get_one_zero : get [0x01] 0 = true := by decide

theorem window_one (blockHeight H : Nat) :
    (decide (blockHeight ≤ H ∧ H < blockHeight + 1) && get [0x01] (H - blockHeight)) = decide (H = blockHeight) := by
  by_cases hH : H = blockHeight
  · subst hH
    rw [Nat.sub_self, decide_eq_true (by omega), decide_eq_true rfl, get_one_zero]
    rfl
  · rw [decide_eq_false (by omega), decide_eq_false hH, Bool.false_and]

theorem window_zero (blockHeight bitlen H : Nat) :
    (decide (blockHeight ≤ H ∧ H < blockHeight + bitlen) && get [0x00] (H - blockHeight)) = false := by
  have hzero : get [0x00] (H - blockHeight) = false := by
    unfold Bitmap.get
    cases (H - blockHeight) / 8 <;> simp
  rw [hzero, Bool.and_false]

theorem length_one_lt_bitvecLen (b : UInt8) : ¬ [b].length < bitvecLen 1 := by
  simp [bitvecLen]

theorem setBlockBit_flips {self : PeerBlocksInv} (hv : self.Valid) {now blockHeight : Nat}
    (hh : self.firstBlockHeight ≤ blockHeight) :
    ∃ inv', self.setBlockBit now blockHeight = ok (!self.hasIthBlock blockHeight, inv') ∧ inv'.Valid ∧
      ∀ H, inv'.hasIthBlock H = (self.hasIthBlock H || decide (H = blockHeight)) ∧
        inv'.hasIthMicroblockStream H = self.hasIthMicroblockStream H := by
  have hok : ∃ r, self.mergeBlocksInv now blockHeight 1 [0x01] [0x00] = ok r :=
    exists_mergeBlocksInv_eq_ok hv (by
      rintro (hlow | hb | hmb | ⟨h0, -⟩)
      · omega
      · exact length_one_lt_bitvecLen _ hb
      · exact length_one_lt_bitvecLen _ hmb
      · exact Nat.one_ne_zero h0)
  obtain ⟨⟨counts, inv'⟩, hm⟩ := hok
  have hcounts := counts_of_mergeBlocksInv hm
  have hnew : (List.range 1).countP (fun i => get [0x01] i && !self.hasIthBlock (blockHeight + i)) =
      if self.hasIthBlock blockHeight then 0 else 1 := by
    rw [List.range_one, List.countP_singleton, get_one_zero, Nat.add_zero, Bool.true_and]
    cases self.hasIthBlock blockHeight <;> rfl
  subst hcounts
  refine ⟨inv', ?_, valid_mergeBlocksInv hv hm, fun H => ⟨?_, ?_⟩⟩
  · rw [setBlockBit, hm, ok_bind, hnew]
    cases self.hasIthBlock blockHeight <;> rfl
  · rw [hasIthBlock_of_mergeBlocksInv hm, window_one]
  · rw [hasIthMicroblockStream_of_mergeBlocksInv hm, window_zero, Bool.or_false]

theorem setBlockBit_flips_empty :
    (empty 0).Valid ∧ (empty 0).firstBlockHeight ≤ 3 ∧
      ∃ inv', (empty 0).setBlockBit 0 3 = ok (!(empty 0).hasIthBlock 3, inv') ∧ inv'.Valid ∧
        ∀ H, inv'.hasIthBlock H = ((empty 0).hasIthBlock H || decide (H = 3)) ∧
          inv'.hasIthMicroblockStream H = (empty 0).hasIthMicroblockStream H :=
  ⟨valid_empty 0, by decide, setBlockBit_flips (valid_empty 0) (by decide)⟩

/-! ### Runs -/

/-- A call a node makes on a peer's inventory: a `BlocksInv` reply merged at
the height it was asked for, or one bit set when a peer announces a block or
a microblock stream. -/
inductive Call where
  | mergeBlocksInv (now blockHeight bitlen : Nat) (blockBitvec microblocksBitvec : Bytes)
  | setBlockBit (now blockHeight : Nat)
  | setMicroblocksBit (now blockHeight : Nat)

namespace Call

def apply (self : PeerBlocksInv) : Call → Outcome Empty PeerBlocksInv
  | mergeBlocksInv now blockHeight bitlen bv mbv => do
    let (_, inv) ← self.mergeBlocksInv now blockHeight bitlen bv mbv
    ok inv
  | setBlockBit now blockHeight => do
    let (_, inv) ← self.setBlockBit now blockHeight
    ok inv
  | setMicroblocksBit now blockHeight => do
    let (_, inv) ← self.setMicroblocksBit now blockHeight
    ok inv

/-- Whether the call reports an anchored block at burn height `H`. -/
def marksBlock : Call → Nat → Bool
  | mergeBlocksInv _ blockHeight bitlen bv _, H =>
    decide (blockHeight ≤ H ∧ H < blockHeight + bitlen) && get bv (H - blockHeight)
  | setBlockBit _ blockHeight, H => decide (H = blockHeight)
  | setMicroblocksBit _ _, _ => false

/-- Whether the call reports a confirmed microblock stream at burn height `H`. -/
def marksMicroblockStream : Call → Nat → Bool
  | mergeBlocksInv _ blockHeight bitlen _ mbv, H =>
    decide (blockHeight ≤ H ∧ H < blockHeight + bitlen) && get mbv (H - blockHeight)
  | setBlockBit _ _, _ => false
  | setMicroblocksBit _ blockHeight, H => decide (H = blockHeight)

end Call

def runCalls (self : PeerBlocksInv) (calls : List Call) : Outcome Empty PeerBlocksInv :=
  calls.foldlM Call.apply self

/-- One call keeps the invariant and adds what it reports. -/
theorem Call.apply_spec {self inv : PeerBlocksInv} (hv : self.Valid) {c : Call} (h : c.apply self = ok inv) :
    inv.Valid ∧ ∀ H, inv.hasIthBlock H = (self.hasIthBlock H || c.marksBlock H) ∧
      inv.hasIthMicroblockStream H = (self.hasIthMicroblockStream H || c.marksMicroblockStream H) := by
  cases c with
  | mergeBlocksInv now blockHeight bitlen bv mbv =>
    obtain ⟨⟨counts, inv₁⟩, hm, h⟩ := bind_eq_ok.mp h
    cases h
    exact ⟨valid_mergeBlocksInv hv hm, fun H =>
      ⟨hasIthBlock_of_mergeBlocksInv hm H, hasIthMicroblockStream_of_mergeBlocksInv hm H⟩⟩
  | setBlockBit now blockHeight =>
    obtain ⟨⟨flipped, inv₁⟩, hs, h⟩ := bind_eq_ok.mp h
    cases h
    obtain ⟨⟨counts, inv₂⟩, hm, hs⟩ := bind_eq_ok.mp hs
    cases hs
    refine ⟨valid_mergeBlocksInv hv hm, fun H => ⟨?_, ?_⟩⟩
    · rw [hasIthBlock_of_mergeBlocksInv hm, window_one]
      rfl
    · rw [hasIthMicroblockStream_of_mergeBlocksInv hm, window_zero]
      rfl
  | setMicroblocksBit now blockHeight =>
    obtain ⟨⟨flipped, inv₁⟩, hs, h⟩ := bind_eq_ok.mp h
    cases h
    obtain ⟨⟨counts, inv₂⟩, hm, hs⟩ := bind_eq_ok.mp hs
    cases hs
    refine ⟨valid_mergeBlocksInv hv hm, fun H => ⟨?_, ?_⟩⟩
    · rw [hasIthBlock_of_mergeBlocksInv hm, window_zero]
      rfl
    · rw [hasIthMicroblockStream_of_mergeBlocksInv hm, window_one]
      rfl

/-- A run keeps the invariant and adds what each of its calls reports, by
induction on the calls. -/
theorem runCalls_spec : ∀ {calls : List Call} {self inv : PeerBlocksInv}, self.Valid → runCalls self calls = ok inv →
    inv.Valid ∧ ∀ H, inv.hasIthBlock H = (self.hasIthBlock H || calls.any (Call.marksBlock · H)) ∧
      inv.hasIthMicroblockStream H = (self.hasIthMicroblockStream H || calls.any (Call.marksMicroblockStream · H))
  | [], self, inv, hv, h => by
    cases h
    simp [hv]
  | c :: calls, self, inv, hv, h => by
    rw [runCalls, List.foldlM_cons] at h
    obtain ⟨inv₁, h₁, h⟩ := bind_eq_ok.mp h
    obtain ⟨hv₁, hstep⟩ := Call.apply_spec hv h₁
    obtain ⟨hv', hrun⟩ := runCalls_spec hv₁ h
    refine ⟨hv', fun H => ⟨?_, ?_⟩⟩
    · rw [(hrun H).1, (hstep H).1, List.any_cons, Bool.or_assoc]
    · rw [(hrun H).2, (hstep H).2, List.any_cons, Bool.or_assoc]

theorem hasIthBlock_empty (firstBlockHeight H : Nat) : (empty firstBlockHeight).hasIthBlock H = false := by
  rw [hasIthBlock_eq, get_of_length_le (Nat.zero_le _), Bool.and_false]

theorem hasIthMicroblockStream_empty (firstBlockHeight H : Nat) :
    (empty firstBlockHeight).hasIthMicroblockStream H = false := by
  rw [hasIthMicroblockStream_eq, get_of_length_le (Nat.zero_le _), Bool.and_false]

/-- From an empty inventory, whatever run of merges and bit sets returns
leaves a valid inventory that knows exactly the blocks and microblock streams
the calls reported. -/
theorem runCalls_hasIthBlock {firstBlockHeight : Nat} {calls : List Call} {inv : PeerBlocksInv}
    (h : runCalls (empty firstBlockHeight) calls = ok inv) :
    inv.Valid ∧ ∀ H, inv.hasIthBlock H = calls.any (Call.marksBlock · H) ∧
      inv.hasIthMicroblockStream H = calls.any (Call.marksMicroblockStream · H) := by
  obtain ⟨hv, hrun⟩ := runCalls_spec (valid_empty firstBlockHeight) h
  refine ⟨hv, fun H => ⟨?_, ?_⟩⟩
  · rw [(hrun H).1, hasIthBlock_empty, Bool.false_or]
  · rw [(hrun H).2, hasIthMicroblockStream_empty, Bool.false_or]

theorem runCalls_hasIthBlock_one :
    runCalls (empty 0) [.setBlockBit 0 3] = ok ⟨[0x08], [0x00], 4, 0, 0⟩ ∧
      ((⟨[0x08], [0x00], 4, 0, 0⟩ : PeerBlocksInv).Valid ∧ ∀ H,
        (⟨[0x08], [0x00], 4, 0, 0⟩ : PeerBlocksInv).hasIthBlock H = [Call.setBlockBit 0 3].any (Call.marksBlock · H) ∧
        (⟨[0x08], [0x00], 4, 0, 0⟩ : PeerBlocksInv).hasIthMicroblockStream H =
          [Call.setBlockBit 0 3].any (Call.marksMicroblockStream · H)) :=
  ⟨by decide, @runCalls_hasIthBlock 0 _ _ (by decide)⟩

end PeerBlocksInv

/-! ### The reply a node serves

The end of `StacksChainState::get_blocks_inventory`
(`chainstate/stacks/db/blocks.rs`): one flag of each kind per header hash
asked about, packed by `compress_bools`. What the chain state's lookups find
is the input: for each header hash, whether its anchored block is stored, and
whether a non-empty confirmed microblock stream off it is.
-/

structure HeaderLookup where
  hasBlock : Bool
  hasMicroblocks : Bool
  deriving DecidableEq, Repr

/-- The loop of `get_blocks_inventory`: a microblock stream is reported only
with its anchored block. -/
def inventoryBits (lookups : List HeaderLookup) : List Bool × List Bool :=
  lookups.foldl (fun bits l =>
    if l.hasBlock then (bits.1 ++ [true], bits.2 ++ [l.hasMicroblocks])
    else (bits.1 ++ [false], bits.2 ++ [false])) ([], [])

/-- `get_blocks_inventory` after its lookups; the error is the
`net_error::OverflowError` it wraps. -/
def getBlocksInventory (lookups : List HeaderLookup) : Outcome NetError BlocksInvData :=
  if lookups.length > BLOCKS_INV_DATA_MAX_BITLEN then
    err (.overflowError "Resulting block inventory would be too big")
  else
    let (blockBits, microblockBits) := inventoryBits lookups
    if blockBits.length = microblockBits.length then
      ok ⟨blockBits.length, BlocksInvData.compressBools blockBits, BlocksInvData.compressBools microblockBits⟩
    else panic

theorem inventoryBits_eq (lookups : List HeaderLookup) :
    inventoryBits lookups =
      (lookups.map HeaderLookup.hasBlock, lookups.map fun l => l.hasBlock && l.hasMicroblocks) := by
  have hloop : ∀ (acc : List Bool × List Bool),
      lookups.foldl (fun bits l =>
        if l.hasBlock then (bits.1 ++ [true], bits.2 ++ [l.hasMicroblocks])
        else (bits.1 ++ [false], bits.2 ++ [false])) acc =
      (acc.1 ++ lookups.map HeaderLookup.hasBlock, acc.2 ++ lookups.map fun l => l.hasBlock && l.hasMicroblocks) := by
    induction lookups with
    | nil => simp
    | cons l lookups ih =>
      intro acc
      rw [List.foldl_cons, ih]
      cases h : l.hasBlock <;> simp [h]
  exact hloop ([], [])

theorem getBlocksInventory_eq {lookups : List HeaderLookup} (hlen : lookups.length ≤ BLOCKS_INV_DATA_MAX_BITLEN) :
    getBlocksInventory lookups =
      ok ⟨lookups.length, BlocksInvData.compressBools (lookups.map HeaderLookup.hasBlock),
        BlocksInvData.compressBools (lookups.map fun l => l.hasBlock && l.hasMicroblocks)⟩ := by
  rw [getBlocksInventory, if_neg (Nat.not_lt.mpr hlen), inventoryBits_eq]
  simp

theorem valid_getBlocksInventory {lookups : List HeaderLookup} (hlen : lookups.length ≤ BLOCKS_INV_DATA_MAX_BITLEN) :
    BlocksInvData.Valid ⟨lookups.length, BlocksInvData.compressBools (lookups.map HeaderLookup.hasBlock),
      BlocksInvData.compressBools (lookups.map fun l => l.hasBlock && l.hasMicroblocks)⟩ :=
  ⟨hlen, by simp [BlocksInvData.length_compressBools], by simp [BlocksInvData.length_compressBools]⟩

/-- The exchange of an inventory, end to end: what a node serves for the
header hashes a peer asked about is encoded, read back whole by the peer,
and merged at the height the peer asked for; the peer's inventory then holds
what it held, and, over the window asked about, exactly the blocks and
microblock streams the node has. -/
theorem blocksInv_exchange {lookups : List HeaderLookup} (hlen : lookups.length ≤ BLOCKS_INV_DATA_MAX_BITLEN)
    {self : PeerBlocksInv} (hv : self.Valid) {blockHeight : Nat} (hh : self.firstBlockHeight ≤ blockHeight)
    (hask : 0 < lookups.length ∨ blockHeight - self.firstBlockHeight ≤ self.numSortitions) (now : Nat)
    (rest : Bytes) :
    ∃ d bytes counts inv', getBlocksInventory lookups = ok d ∧ d.consensusSerialize = ok bytes ∧
      BlocksInvData.consensusDeserialize (bytes ++ rest) = ok (d, rest) ∧
      self.mergeBlocksInv now blockHeight d.bitlen d.blockBitvec d.microblocksBitvec = ok (counts, inv') ∧
      inv'.Valid ∧ ∀ H,
        inv'.hasIthBlock H = (self.hasIthBlock H || decide (blockHeight ≤ H ∧ H < blockHeight + lookups.length) &&
          (lookups.getD (H - blockHeight) ⟨false, false⟩).hasBlock) ∧
        inv'.hasIthMicroblockStream H = (self.hasIthMicroblockStream H ||
          decide (blockHeight ≤ H ∧ H < blockHeight + lookups.length) &&
            ((lookups.getD (H - blockHeight) ⟨false, false⟩).hasBlock &&
              (lookups.getD (H - blockHeight) ⟨false, false⟩).hasMicroblocks)) := by
  have hvalid := valid_getBlocksInventory hlen
  obtain ⟨bytes, hbytes⟩ := BlocksInvData.exists_consensusSerialize
    ⟨lookups.length, BlocksInvData.compressBools (lookups.map HeaderLookup.hasBlock),
      BlocksInvData.compressBools (lookups.map fun l => l.hasBlock && l.hasMicroblocks)⟩
  have hmax : lookups.length < 2 ^ 64 := by
    unfold BLOCKS_INV_DATA_MAX_BITLEN at hlen
    omega
  have hmerge : ∃ r, self.mergeBlocksInv now blockHeight lookups.length
      (BlocksInvData.compressBools (lookups.map HeaderLookup.hasBlock))
      (BlocksInvData.compressBools (lookups.map fun l => l.hasBlock && l.hasMicroblocks)) = ok r := by
    apply PeerBlocksInv.exists_mergeBlocksInv_eq_ok hv
    have hns := hv.numSortitions_le
    simp only [BlocksInvData.length_compressBools, List.length_map, Nat.lt_irrefl, false_or]
    omega
  obtain ⟨⟨counts, inv'⟩, hm⟩ := hmerge
  refine ⟨_, bytes, counts, inv', getBlocksInventory_eq hlen, hbytes,
    BlocksInvData.consensusDeserialize_consensusSerialize hvalid hbytes rest, hm,
    PeerBlocksInv.valid_mergeBlocksInv hv hm, fun H => ⟨?_, ?_⟩⟩
  · have hget : (lookups.map HeaderLookup.hasBlock).getD (H - blockHeight) false =
        (lookups.getD (H - blockHeight) ⟨false, false⟩).hasBlock :=
      List.getD_map lookups ⟨false, false⟩ HeaderLookup.hasBlock
    rw [PeerBlocksInv.hasIthBlock_of_mergeBlocksInv hm, BlocksInvData.get_compressBools (by simpa using hmax), hget]
  · have hget : (lookups.map fun l => l.hasBlock && l.hasMicroblocks).getD (H - blockHeight) false =
        ((lookups.getD (H - blockHeight) ⟨false, false⟩).hasBlock &&
          (lookups.getD (H - blockHeight) ⟨false, false⟩).hasMicroblocks) :=
      List.getD_map lookups ⟨false, false⟩ fun l => l.hasBlock && l.hasMicroblocks
    rw [PeerBlocksInv.hasIthMicroblockStream_of_mergeBlocksInv hm,
      BlocksInvData.get_compressBools (by simpa using hmax), hget]

theorem blocksInv_exchange_one :
    [(⟨true, false⟩ : HeaderLookup)].length ≤ BLOCKS_INV_DATA_MAX_BITLEN ∧ (PeerBlocksInv.empty 0).Valid ∧
      (PeerBlocksInv.empty 0).firstBlockHeight ≤ 2 ∧
      (0 < [(⟨true, false⟩ : HeaderLookup)].length ∨
        2 - (PeerBlocksInv.empty 0).firstBlockHeight ≤ (PeerBlocksInv.empty 0).numSortitions) ∧
      ∃ d bytes counts inv', getBlocksInventory [⟨true, false⟩] = ok d ∧ d.consensusSerialize = ok bytes ∧
        BlocksInvData.consensusDeserialize (bytes ++ []) = ok (d, []) ∧
        (PeerBlocksInv.empty 0).mergeBlocksInv 0 2 d.bitlen d.blockBitvec d.microblocksBitvec = ok (counts, inv') ∧
        inv'.Valid ∧ ∀ H,
          inv'.hasIthBlock H = ((PeerBlocksInv.empty 0).hasIthBlock H ||
            decide (2 ≤ H ∧ H < 2 + [(⟨true, false⟩ : HeaderLookup)].length) &&
              ([(⟨true, false⟩ : HeaderLookup)].getD (H - 2) ⟨false, false⟩).hasBlock) ∧
          inv'.hasIthMicroblockStream H = ((PeerBlocksInv.empty 0).hasIthMicroblockStream H ||
            decide (2 ≤ H ∧ H < 2 + [(⟨true, false⟩ : HeaderLookup)].length) &&
              (([(⟨true, false⟩ : HeaderLookup)].getD (H - 2) ⟨false, false⟩).hasBlock &&
                ([(⟨true, false⟩ : HeaderLookup)].getD (H - 2) ⟨false, false⟩).hasMicroblocks)) :=
  ⟨by decide, PeerBlocksInv.valid_empty 0, by decide, .inl (by decide),
    blocksInv_exchange (by decide) (PeerBlocksInv.valid_empty 0) (by decide) (.inl (by decide)) 0 []⟩

end BlockstackCore