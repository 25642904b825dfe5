import Mathlib

/-!
# Leading and trailing zeros of a word

`BitVec.clz` and `BitVec.ctz` count the zero bits above the top set bit and
below the lowest one. For a nonzero word of width `w`, the top set bit is at
`w - 1 - clz`, which is the base-2 logarithm of its value rounded down
(`log2_toNat`), and the lowest set bit is at that same place exactly when the
value is a power of two (`toNat_ctz_eq_log2_iff`). Together they give the
logarithm rounded up, the least `k` with `n ≤ 2 ^ k` (`isLeast_ceilLog2`).
-/

namespace BitCount

/-- The base-2 logarithm rounded up: the place of the top bit, plus one
unless no lower bit is set. -/
def ceilLog2 (n : Nat) : Nat := if n = 2 ^ n.log2 then n.log2 else n.log2 + 1

/-- `ceilLog2 n` is the least `k` with `n ≤ 2 ^ k`. -/
theorem isLeast_ceilLog2 {n : Nat} (hn : n ≠ 0) : IsLeast {k | n ≤ 2 ^ k} (ceilLog2 n) := by
  have hle : 2 ^ n.log2 ≤ n := Nat.log2_self_le hn
  have hlt : n < 2 ^ (n.log2 + 1) := Nat.lt_log2_self
  unfold ceilLog2
  split
  · rename_i hpow
    refine ⟨Nat.le_of_eq hpow, fun k hk => ?_⟩
    exact (Nat.pow_le_pow_iff_right (by decide)).mp (Nat.le_trans hle hk)
  · rename_i hpow
    refine ⟨Nat.le_of_lt hlt, fun k hk => ?_⟩
    -- `n` is strictly above the power of its top bit
    have habove : 2 ^ n.log2 < 2 ^ k := Nat.lt_of_lt_of_le (Nat.lt_of_le_of_ne hle (Ne.symm hpow)) hk
    exact (Nat.pow_lt_pow_iff_right (by decide)).mp habove

variable {w : Nat} {x : BitVec w}

theorem toNat_clz_lt (hx : x ≠ 0#w) : x.clz.toNat < w := by
  have hlt : x.clz < (w : BitVec w) := BitVec.clz_lt_iff_ne_zero.mpr hx
  rw [BitVec.lt_def] at hlt
  simpa [Nat.mod_eq_of_lt (Nat.lt_two_pow_self)] using hlt

theorem toNat_clz_zero : (0#w).clz.toNat = w := by
  have h : (0#w).clz = (w : BitVec w) := BitVec.clz_eq_iff_eq_zero.mpr rfl
  rw [h]
  simp [Nat.mod_eq_of_lt (Nat.lt_two_pow_self)]

/-- The top set bit of a nonzero word is its logarithm rounded down. -/
theorem log2_toNat (hx : x ≠ 0#w) : x.toNat.log2 = w - 1 - x.clz.toNat := by
  have hclz := toNat_clz_lt hx
  have hpos : 0 < w := by omega
  have hne : x.toNat ≠ 0 := fun h => hx (BitVec.eq_of_toNat_eq (by simpa using h))
  rw [Nat.log2_eq_iff hne]
  refine ⟨BitVec.two_pow_sub_clz_le_toNat_of_ne_zero hpos hx, ?_⟩
  -- the value is below the power just above its top bit
  have hlt := BitVec.toNat_lt_two_pow_sub_clz (x := x)
  rwa [show w - 1 - x.clz.toNat + 1 = w - x.clz.toNat by omega]

/-- A word's length in binary is its width less its leading zeros. -/
theorem size_toNat (x : BitVec w) : x.toNat.size = w - x.clz.toNat := by
  by_cases hx : x = 0#w
  · subst hx
    simp [toNat_clz_zero]
  · have hclz := toNat_clz_lt hx
    apply Nat.le_antisymm
    · exact Nat.size_le.mpr BitVec.toNat_lt_two_pow_sub_clz
    · -- the top set bit is at `w - 1 - clz`
      have htop := Nat.lt_size.mpr (BitVec.two_pow_sub_clz_le_toNat_of_ne_zero (by omega) hx)
      omega

/-- The lowest set bit of a nonzero word is its top one exactly when the
value is a power of two. -/
theorem toNat_ctz_eq_log2_iff (hx : x ≠ 0#w) : x.ctz.toNat = x.toNat.log2 ↔ x.toNat = 2 ^ x.toNat.log2 := by
  have hne : x.toNat ≠ 0 := fun h => hx (BitVec.eq_of_toNat_eq (by simpa using h))
  have hlow : x.toNat.testBit x.ctz.toNat = true := BitVec.getLsbD_true_ctz_of_ne_zero hx
  constructor
  · intro hctz
    apply Nat.eq_of_testBit_eq
    intro i
    rw [Nat.testBit_two_pow]
    rcases Nat.lt_trichotomy i x.toNat.log2 with hi | rfl | hi
    · -- below the lowest set bit
      have hfalse : x.getLsbD i = false := BitVec.getLsbD_false_of_lt_ctz (by omega)
      simp only [BitVec.getLsbD] at hfalse
      rw [hfalse]
      simp [Nat.ne_of_gt hi]
    · rw [← hctz, hlow]
      simp
    · -- above the top set bit
      have hbelow : x.toNat < 2 ^ i :=
        Nat.lt_of_lt_of_le Nat.lt_log2_self (Nat.pow_le_pow_right (by decide) hi)
      rw [Nat.testBit_lt_two_pow hbelow]
      simp [Nat.ne_of_lt hi]
  · intro hpow
    rw [hpow, Nat.testBit_two_pow] at hlow
    exact (of_decide_eq_true hlow).symm

end BitCount
