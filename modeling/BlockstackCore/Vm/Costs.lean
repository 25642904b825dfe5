import BlockstackCore.Library.ByteCodec
import BlockstackCore.Library.BitCount

/-!
# Execution costs and the limited cost tracker

`vm/costs/mod.rs`: an `ExecutionCost` has five `u64` dimensions; a cost
specification computes one from an input size; `LimitedCostTracker` adds
charges to a running total and refuses the one that takes the total past its
limit in any dimension, and it counts memory against a memory limit.

Both trackers keep what they added on the error path: a charge past the limit
stays in the total, an allocation past the memory limit stays in the memory
counter, and an overflow in `ExecutionCost::add` leaves the dimensions before
it already added. So the operations return the tracker after them together
with their `Result`. `drop_memory` panics on underflow (`expect`): it returns
an `Option` whose `none` is the panic.
-/

namespace BlockstackCore

open ByteCodec

structure ExecutionCost where
  writeLength : Nat
  writeCount : Nat
  readLength : Nat
  readCount : Nat
  runtime : Nat
  deriving DecidableEq, Repr

inductive CostErrors where
  | costOverflow
  | costBalanceExceeded (total limit : ExecutionCost)
  | memoryBalanceExceeded (used limit : Nat)
  deriving DecidableEq, Repr

/-- `cost_overflow_add` on `u64`. -/
def costOverflowAdd (a b : Nat) : Except CostErrors Nat :=
  match checkedAdd 64 a b with
  | some c => .ok c
  | none => .error .costOverflow

/-- `cost_overflow_mul` on `u64`. -/
def costOverflowMul (a b : Nat) : Except CostErrors Nat :=
  match checkedMul 64 a b with
  | some c => .ok c
  | none => .error .costOverflow

namespace ExecutionCost

def zero : ExecutionCost := ⟨0, 0, 0, 0, 0⟩

/-- `ExecutionCost::add`: dimension by dimension in the code's order (runtime,
read count, read length, write length, write count); an overflow returns at
once, with the dimensions before it already added. -/
def add (self other : ExecutionCost) : ExecutionCost × Except CostErrors Unit :=
  match costOverflowAdd self.runtime other.runtime with
  | .error e => (self, .error e)
  | .ok runtime =>
  match costOverflowAdd self.readCount other.readCount with
  | .error e => ({ self with runtime }, .error e)
  | .ok readCount =>
  match costOverflowAdd self.readLength other.readLength with
  | .error e => ({ self with runtime, readCount }, .error e)
  | .ok readLength =>
  match costOverflowAdd self.writeLength other.writeLength with
  | .error e => ({ self with runtime, readCount, readLength }, .error e)
  | .ok writeLength =>
  match costOverflowAdd self.writeCount other.writeCount with
  | .error e => ({ self with runtime, readCount, readLength, writeLength }, .error e)
  | .ok writeCount => (⟨writeLength, writeCount, readLength, readCount, runtime⟩, .ok ())

/-- Whether this cost exceeds any dimension of the other. -/
def exceeds (self other : ExecutionCost) : Bool :=
  self.runtime > other.runtime || self.writeLength > other.writeLength ||
    self.writeCount > other.writeCount || self.readCount > other.readCount ||
    self.readLength > other.readLength

end ExecutionCost

inductive CostFunctions where
  | constant (val : Nat)
  | linear (a b : Nat)
  | nLogN (a b : Nat)
  | logN (a b : Nat)
  deriving DecidableEq, Repr

/-- `int_log2` of a `u64`. `63 - leading_zeros` is the place of the top set
bit, by `checked_sub`, which fails at zero (`None`); the result is that place
when `trailing_zeros` equals it (no lower bit is set), and one more otherwise. -/
def intLog2 (input : BitVec 64) : Option Nat :=
  if input.clz.toNat ≤ 63 then
    let floorLog := 63 - input.clz.toNat
    some (if input.ctz.toNat = floorLog then floorLog else floorLog + 1)
  else none

namespace CostFunctions

/-- `compute_cost` on a `u64` input, below `2 ^ 64`. -/
def computeCost : CostFunctions → Nat → Except CostErrors Nat
  | constant val, _ => .ok val
  | linear a b, input => do costOverflowAdd (← costOverflowMul a input) b
  | logN a b, input => do
    let log ← match intLog2 (BitVec.ofNat 64 (max input 1)) with
      | some log => .ok log
      | none => .error .costOverflow
    costOverflowAdd (← costOverflowMul log a) b
  | nLogN a b, input => do
    let log ← match intLog2 (BitVec.ofNat 64 (max input 1)) with
      | some log => .ok log
      | none => .error .costOverflow
    costOverflowAdd (← costOverflowMul (← costOverflowMul log input) a) b

end CostFunctions

section Log

open BitCount

theorem intLog2_zero : intLog2 0#64 = none := by
  simp [intLog2]

/-- On a nonzero word the bit trick computes the logarithm rounded up. -/
theorem intLog2_of_ne_zero {x : BitVec 64} (hx : x ≠ 0#64) : intLog2 x = some (ceilLog2 x.toNat) := by
  have hclz := toNat_clz_lt hx
  -- `63 - leading_zeros` is the logarithm rounded down
  have hfloor : 63 - x.clz.toNat = x.toNat.log2 := by
    rw [log2_toNat hx]
  unfold intLog2 ceilLog2
  rw [if_pos (by omega), hfloor]
  simp only [toNat_ctz_eq_log2_iff hx]

/-- `int_log2(max(input, 1))` on a `u64` input. -/
theorem intLog2_max_one {n : Nat} (hn : n < 2 ^ 64) :
    intLog2 (BitVec.ofNat 64 (max n 1)) = some (ceilLog2 (max n 1)) := by
  have hlt : max n 1 < 2 ^ 64 := by omega
  have hval : (BitVec.ofNat 64 (max n 1)).toNat = max n 1 := by
    rw [BitVec.toNat_ofNat, Nat.mod_eq_of_lt hlt]
  have hne : BitVec.ofNat 64 (max n 1) ≠ 0#64 := by
    intro h
    have hzero := congrArg BitVec.toNat h
    rw [hval] at hzero
    simp at hzero
  rw [intLog2_of_ne_zero hne, hval]

theorem costOverflowMul_eq (a b : Nat) :
    costOverflowMul a b = if a * b < 2 ^ 64 then .ok (a * b) else .error .costOverflow := by
  unfold costOverflowMul checkedMul
  by_cases h : a * b < 2 ^ 64
  · rw [if_pos h, if_pos h]
  · rw [if_neg h, if_neg h]

theorem costOverflowAdd_eq (a b : Nat) :
    costOverflowAdd a b = if a + b < 2 ^ 64 then .ok (a + b) else .error .costOverflow := by
  unfold costOverflowAdd checkedAdd
  by_cases h : a + b < 2 ^ 64
  · rw [if_pos h, if_pos h]
  · rw [if_neg h, if_neg h]

/-- `LogN`: the product is checked before the sum, and it overflows only
when the sum does. -/
theorem computeCost_logN (a b : Nat) {n : Nat} (hn : n < 2 ^ 64) :
    (CostFunctions.logN a b).computeCost n =
      if ceilLog2 (max n 1) * a + b < 2 ^ 64 then .ok (ceilLog2 (max n 1) * a + b)
      else .error .costOverflow := by
  simp only [CostFunctions.computeCost, intLog2_max_one hn, costOverflowMul_eq, costOverflowAdd_eq, bind,
    Except.bind]
  generalize ceilLog2 (max n 1) = k
  by_cases hmul : k * a < 2 ^ 64
  · rw [if_pos hmul]
  · have hsum : ¬k * a + b < 2 ^ 64 := by omega
    rw [if_neg hmul, if_neg hsum]

/-- `NLogN`: the log is multiplied by the input first, and that product is
checked on its own. -/
theorem computeCost_nLogN (a b : Nat) {n : Nat} (hn : n < 2 ^ 64) :
    (CostFunctions.nLogN a b).computeCost n =
      if ceilLog2 (max n 1) * n < 2 ^ 64 ∧ ceilLog2 (max n 1) * n * a + b < 2 ^ 64 then
        .ok (ceilLog2 (max n 1) * n * a + b)
      else .error .costOverflow := by
  simp only [CostFunctions.computeCost, intLog2_max_one hn, costOverflowMul_eq, costOverflowAdd_eq, bind,
    Except.bind]
  generalize ceilLog2 (max n 1) = k
  by_cases hlog : k * n < 2 ^ 64
  · rw [if_pos hlog]
    dsimp only
    by_cases hmul : k * n * a < 2 ^ 64
    · rw [if_pos hmul, if_congr (and_iff_right hlog) rfl rfl]
    · have hsum : ¬k * n * a + b < 2 ^ 64 := by omega
      rw [if_neg hmul, if_neg (fun h => hsum h.2)]
  · rw [if_neg hlog, if_neg (fun h => hlog h.1)]

/-- `int_log2` is `None` at zero and the logarithm rounded up elsewhere, and
`LogN` charges `a * k + b` where that fits in a `u64`. `NLogN` charges
`a * k * n + b` where that fits and `k * n` fits too: it multiplies the log
by the input before `a`, and checks that product on its own. -/
theorem intLog2_ceil_and_log_costs :
    intLog2 0#64 = none ∧
    (∀ x : BitVec 64, 1 ≤ x.toNat → ∃ k, intLog2 x = some k ∧ IsLeast {j | x.toNat ≤ 2 ^ j} k) ∧
    ∀ a b n : Nat, n < 2 ^ 64 → ∃ k, IsLeast {j | max n 1 ≤ 2 ^ j} k ∧
      (CostFunctions.logN a b).computeCost n =
        (if a * k + b < 2 ^ 64 then .ok (a * k + b) else .error .costOverflow) ∧
      (CostFunctions.nLogN a b).computeCost n =
        (if k * n < 2 ^ 64 ∧ a * k * n + b < 2 ^ 64 then .ok (a * k * n + b) else .error .costOverflow) := by
  refine ⟨intLog2_zero, fun x hx => ?_, fun a b n hn => ?_⟩
  · have hne : x ≠ 0#64 := fun h => by simp [h] at hx
    exact ⟨ceilLog2 x.toNat, intLog2_of_ne_zero hne, isLeast_ceilLog2 (by omega)⟩
  · refine ⟨ceilLog2 (max n 1), isLeast_ceilLog2 (by omega), ?_, ?_⟩
    · rw [computeCost_logN a b hn, Nat.mul_comm a]
    · rw [computeCost_nLogN a b hn, show a * ceilLog2 (max n 1) * n = ceilLog2 (max n 1) * n * a by
        rw [Nat.mul_assoc, Nat.mul_comm]]

theorem intLog2_ceil_at_thirtyThree :
    (∃ k, intLog2 33#64 = some k ∧ IsLeast {j | (33#64).toNat ≤ 2 ^ j} k) ∧
    ∃ k, IsLeast {j | max 33 1 ≤ 2 ^ j} k ∧
      (CostFunctions.logN 2 1).computeCost 33 =
        (if 2 * k + 1 < 2 ^ 64 then .ok (2 * k + 1) else .error .costOverflow) ∧
      (CostFunctions.nLogN 2 1).computeCost 33 =
        (if k * 33 < 2 ^ 64 ∧ 2 * k * 33 + 1 < 2 ^ 64 then .ok (2 * k * 33 + 1) else .error .costOverflow) :=
  ⟨intLog2_ceil_and_log_costs.2.1 33#64 (by decide), intLog2_ceil_and_log_costs.2.2 2 1 33 (by decide)⟩

/-- `NLogN(0, 0)` at `2 ^ 63` costs nothing by its formula, but the log times
the input, `63 * 2 ^ 63`, overflows first. -/
theorem nLogN_overflows_on_free_cost :
    (∀ k, 0 * k * 2 ^ 63 + 0 < 2 ^ 64) ∧ (CostFunctions.nLogN 0 0).computeCost (2 ^ 63) = .error .costOverflow := by
  refine ⟨fun k => by simp, ?_⟩
  have hlog : ceilLog2 (max (2 ^ 63) 1) = 63 := by
    rw [Nat.max_eq_left (Nat.one_le_two_pow), ceilLog2, Nat.log2_two_pow, if_pos rfl]
  rw [computeCost_nLogN 0 0 (by decide), hlog]
  decide

end Log

structure SimpleCostSpecification where
  writeLength : CostFunctions
  writeCount : CostFunctions
  readCount : CostFunctions
  readLength : CostFunctions
  runtime : CostFunctions
  deriving DecidableEq, Repr

namespace SimpleCostSpecification

def computeCost (spec : SimpleCostSpecification) (input : Nat) : Except CostErrors ExecutionCost := do
  let writeLength ← spec.writeLength.computeCost input
  let writeCount ← spec.writeCount.computeCost input
  let readCount ← spec.readCount.computeCost input
  let readLength ← spec.readLength.computeCost input
  let runtime ← spec.runtime.computeCost input
  pure ⟨writeLength, writeCount, readLength, readCount, runtime⟩

end SimpleCostSpecification

/-- `def_runtime_cost!`: a specification that charges runtime only. -/
def defRuntimeCost (runtime : CostFunctions) : SimpleCostSpecification :=
  ⟨.constant 0, .constant 0, .constant 0, .constant 0, runtime⟩

/-! The specifications of `cost_functions` that the evaluator charges. -/

namespace costFunctions

def LOOKUP_VARIABLE_DEPTH : SimpleCostSpecification := defRuntimeCost (.linear 1 1)
def LOOKUP_VARIABLE_SIZE : SimpleCostSpecification := defRuntimeCost (.linear 1 0)
def LOOKUP_FUNCTION : SimpleCostSpecification := defRuntimeCost (.constant 1)
def INNER_TYPE_CHECK_COST : SimpleCostSpecification := defRuntimeCost (.linear 1 1)
def USER_FUNCTION_APPLICATION : SimpleCostSpecification := defRuntimeCost (.linear 1 1)
def IF : SimpleCostSpecification := defRuntimeCost (.constant 1)
def ASSERTS : SimpleCostSpecification := defRuntimeCost (.constant 1)
def BEGIN : SimpleCostSpecification := defRuntimeCost (.constant 1)

end costFunctions

def CLARITY_MEMORY_LIMIT : Nat := 100 * 1000 * 1000

structure LimitedCostTracker where
  total : ExecutionCost
  limit : ExecutionCost
  memory : Nat
  memoryLimit : Nat
  deriving DecidableEq, Repr

namespace LimitedCostTracker

def new (limit : ExecutionCost) : LimitedCostTracker := ⟨ExecutionCost.zero, limit, 0, CLARITY_MEMORY_LIMIT⟩

/-- `add_cost`: the charge stays in the total even when it is refused. -/
def addCost (s : LimitedCostTracker) (cost : ExecutionCost) : LimitedCostTracker × Except CostErrors Unit :=
  let (total, added) := s.total.add cost
  let s := { s with total }
  match added with
  | .error e => (s, .error e)
  | .ok () =>
    if total.exceeds s.limit then (s, .error (.costBalanceExceeded total s.limit))
    else (s, .ok ())

/-- `add_memory`: the allocation stays counted even when it is refused. -/
def addMemory (s : LimitedCostTracker) (memory : Nat) : LimitedCostTracker × Except CostErrors Unit :=
  match costOverflowAdd s.memory memory with
  | .error e => (s, .error e)
  | .ok m =>
    let s := { s with memory := m }
    if m > s.memoryLimit then (s, .error (.memoryBalanceExceeded m s.memoryLimit))
    else (s, .ok ())

/-- `drop_memory`; `none` is the panic of `expect("Underflowed dropped memory")`. -/
def dropMemory (s : LimitedCostTracker) (memory : Nat) : Option LimitedCostTracker :=
  if memory ≤ s.memory then some { s with memory := s.memory - memory } else none

theorem addCost_memory (s : LimitedCostTracker) (cost : ExecutionCost) :
    (s.addCost cost).1.memory = s.memory := by
  unfold addCost
  split
  dsimp only
  split
  · rfl
  · split <;> rfl

theorem costOverflowAdd_eq_ok {a b c : Nat} (h : costOverflowAdd a b = .ok c) : c = a + b := by
  rw [costOverflowAdd_eq] at h
  split at h
  · exact (Except.ok.inj h).symm
  · cases h

/-- An allocation never lowers the memory counter, and one that is accepted
adds exactly its size. -/
theorem addMemory_memory (s : LimitedCostTracker) (memory : Nat) :
    s.memory ≤ (s.addMemory memory).1.memory ∧
      ((s.addMemory memory).2 = .ok () → (s.addMemory memory).1.memory = s.memory + memory) := by
  unfold addMemory
  split
  · exact ⟨Nat.le_refl _, fun h => by cases h⟩
  · rename_i m hm
    have hm' := costOverflowAdd_eq_ok hm
    dsimp only
    split
    · dsimp only
      exact ⟨by omega, fun h => by cases h⟩
    · dsimp only
      exact ⟨by omega, fun _ => hm'⟩

theorem dropMemory_eq_some {s s' : LimitedCostTracker} {memory : Nat} (h : s.dropMemory memory = some s') :
    memory ≤ s.memory ∧ s' = { s with memory := s.memory - memory } := by
  unfold dropMemory at h
  split at h
  · rename_i hle
    exact ⟨hle, (Option.some.inj h).symm⟩
  · cases h

end LimitedCostTracker

end BlockstackCore
