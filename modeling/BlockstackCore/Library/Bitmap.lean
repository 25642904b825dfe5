import Mathlib

/-!
# Byte bitmaps

A `Vec<u8>` used as a bitmap: bit `i` is bit `i % 8` of byte `i / 8`, tested
with the mask `1 << (i % 8)`, and a bit past the last byte reads as clear.

* `testByte_eq_testBit`: testing a mask is reading one binary digit.
* `get_resize`: growing the bitmap with zero bytes changes no bit.
* `get_setBit`: or-ing one mask into its byte sets that bit and no other.
* `testByte_foldl_or`: a byte built by or-ing masks in a loop has exactly
  the bits the loop chose.
-/

namespace Bitmap

/-- `1 << k` as a byte. -/
def mask (k : Nat) : UInt8 := 1 <<< k.toUInt8

/-- `(b & (1 << k)) != 0`. -/
def testByte (b : UInt8) (k : Nat) : Bool := b &&& mask k != 0

/-- Bit `i` of the bitmap; a byte past the end is `0`. -/
def get (bs : List UInt8) (i : Nat) : Bool := testByte (bs.getD (i / 8) 0) (i % 8)

/-- `Vec::resize(n, 0)`. -/
def resize (bs : List UInt8) (n : Nat) : List UInt8 := bs.take n ++ List.replicate (n - bs.length) 0

/-- `bs[i / 8] |= 1 << (i % 8)`. -/
def setBit (bs : List UInt8) (i : Nat) : List UInt8 := bs.modify (i / 8) (· ||| mask (i % 8))

/-! ### One byte -/

theorem toNat_mask {k : Nat} (hk : k < 8) : (mask k).toNat = 2 ^ k := by
  have hshift : k.toUInt8.toNat % 8 = k := by
    simp only [Nat.toUInt8, UInt8.toNat_ofNat']
    omega
  have hlt : 2 ^ k < UInt8.size :=
    calc 2 ^ k < 2 ^ 8 := Nat.pow_lt_pow_right (by decide) hk
      _ = UInt8.size := rfl
  rw [mask, UInt8.toNat_shiftLeft, hshift, UInt8.toNat_one, Nat.one_shiftLeft]
  exact Nat.mod_eq_of_lt hlt

theorem testByte_eq_testBit (b : UInt8) {k : Nat} (hk : k < 8) : testByte b k = b.toNat.testBit k := by
  have hand : (b &&& mask k).toNat = (b.toNat.testBit k).toNat * 2 ^ k := by
    rw [UInt8.toNat_and, toNat_mask hk, Nat.and_two_pow]
  unfold testByte
  cases h : b.toNat.testBit k
  · rw [h, Bool.toNat_false, Nat.zero_mul] at hand
    simp [← UInt8.toNat_inj, hand]
  · rw [h, Bool.toNat_true, Nat.one_mul] at hand
    simp [← UInt8.toNat_inj, hand]

@[simp] theorem testByte_zero (k : Nat) : testByte 0 k = false := by
  simp [testByte]

theorem testByte_or_mask (b : UInt8) {k j : Nat} (hk : k < 8) (hj : j < 8) :
    testByte (b ||| mask k) j = (testByte b j || decide (j = k)) := by
  rw [testByte_eq_testBit _ hj, testByte_eq_testBit _ hj, UInt8.toNat_or, Nat.testBit_or, toNat_mask hk,
    Nat.testBit_two_pow]
  simp [eq_comm]

/-- A loop that ors `mask (g a)` into a byte for each `a` it chooses. -/
theorem testByte_foldl_or {α : Type} (p : α → Bool) (g : α → Nat) {k : Nat} (hk : k < 8) :
    ∀ (l : List α), (∀ a ∈ l, g a < 8) → ∀ b : UInt8,
      testByte (l.foldl (fun o a => if p a then o ||| mask (g a) else o) b) k =
        (testByte b k || l.any fun a => p a && decide (g a = k))
  | [], _, b => by simp
  | a :: l, hg, b => by
    have hl : ∀ a ∈ l, g a < 8 := fun a' ha' => hg a' (List.mem_cons_of_mem a ha')
    rw [List.foldl_cons, testByte_foldl_or p g hk l hl, List.any_cons]
    by_cases hp : p a = true
    · rw [if_pos hp, testByte_or_mask b (hg a List.mem_cons_self) hk, hp, Bool.true_and]
      simp only [eq_comm, Bool.or_assoc]
    · rw [if_neg hp, Bool.eq_false_iff.mpr hp, Bool.false_and, Bool.false_or]

/-- Eight flags packed by index: flag `j` goes to bit `j`. -/
theorem testByte_pack_range (f : Nat → Bool) {k : Nat} (hk : k < 8) :
    testByte ((List.range 8).foldl (fun o j => if f j then o ||| mask j else o) 0) k = f k := by
  have hg : ∀ j ∈ List.range 8, j < 8 := fun j hj => List.mem_range.mp hj
  rw [testByte_foldl_or f (fun j => j) hk _ hg, testByte_zero, Bool.false_or, Bool.eq_iff_iff, List.any_eq_true]
  constructor
  · rintro ⟨j, -, hj⟩
    simp only [Bool.and_eq_true, decide_eq_true_eq] at hj
    rw [← hj.2]
    exact hj.1
  · intro hf
    exact ⟨k, List.mem_range.mpr hk, by simp [hf]⟩

/-- At most eight flags packed by their position in the list. -/
theorem testByte_pack_zipIdx (l : List Bool) (hl : l.length ≤ 8) {k : Nat} (hk : k < 8) :
    testByte (l.zipIdx.foldl (fun o e => if e.1 then o ||| mask e.2 else o) 0) k = l.getD k false := by
  have hg : ∀ e ∈ l.zipIdx, e.2 < 8 := by
    intro e he
    have hlt : e.2 < l.length := (List.getElem?_eq_some_iff.mp (List.mem_zipIdx_iff_getElem?.mp he)).1
    omega
  rw [testByte_foldl_or Prod.fst Prod.snd hk _ hg, testByte_zero, Bool.false_or, Bool.eq_iff_iff,
    List.any_eq_true, List.getD_eq_getElem?_getD]
  constructor
  · rintro ⟨⟨b, j⟩, hm, hb⟩
    simp only [Bool.and_eq_true, decide_eq_true_eq] at hb
    obtain ⟨rfl, rfl⟩ := hb
    rw [List.mem_zipIdx_iff_getElem?.mp hm]
    rfl
  · intro hk'
    cases hget : l[k]? with
    | none => simp [hget] at hk'
    | some b =>
      rw [hget, Option.getD_some] at hk'
      exact ⟨(b, k), List.mem_zipIdx_iff_getElem?.mpr hget, by simp [hk']⟩

/-! ### The bitmap -/

theorem get_of_length_le {bs : List UInt8} {i : Nat} (h : bs.length ≤ i / 8) : get bs i = false := by
  rw [get, List.getD_eq_default _ _ h, testByte_zero]

@[simp] theorem length_resize (bs : List UInt8) (n : Nat) : (resize bs n).length = n := by
  simp only [resize, List.length_append, List.length_take, List.length_replicate]
  omega

theorem get_resize {bs : List UInt8} {n : Nat} (h : bs.length ≤ n) (i : Nat) :
    get (resize bs n) i = get bs i := by
  rw [resize, List.take_of_length_le h]
  by_cases hi : i / 8 < bs.length
  · rw [get, get, List.getD_append _ _ _ _ hi]
  · have hbs : bs.length ≤ i / 8 := Nat.le_of_not_lt hi
    have hzero : (List.replicate (n - bs.length) (0 : UInt8)).getD (i / 8 - bs.length) 0 = 0 := by
      by_cases hm : i / 8 - bs.length < n - bs.length
      · exact List.getD_replicate 0 hm
      · exact List.getD_eq_default _ _ (by simpa using Nat.le_of_not_lt hm)
    rw [get_of_length_le hbs, get, List.getD_append_right _ _ _ _ hbs, hzero, testByte_zero]

@[simp] theorem length_setBit (bs : List UInt8) (i : Nat) : (setBit bs i).length = bs.length :=
  List.length_modify _ _ _

theorem get_setBit {bs : List UInt8} {i : Nat} (h : i / 8 < bs.length) (j : Nat) :
    get (setBit bs i) j = (get bs j || decide (j = i)) := by
  have hi : i % 8 < 8 := Nat.mod_lt _ (by decide)
  have hj : j % 8 < 8 := Nat.mod_lt _ (by decide)
  unfold get setBit
  by_cases hidx : i / 8 = j / 8
  · have hbyte : (bs.modify (i / 8) (· ||| mask (i % 8))).getD (j / 8) 0 = bs.getD (j / 8) 0 ||| mask (i % 8) := by
      rw [← hidx, List.getD_eq_getElem _ _ (by simpa using h), List.getElem_modify_eq,
        List.getD_eq_getElem _ _ h]
    rw [hbyte, testByte_or_mask _ hi hj]
    have hsame : j % 8 = i % 8 ↔ j = i := by omega
    simp only [hsame]
  · have hbyte : (bs.modify (i / 8) (· ||| mask (i % 8))).getD (j / 8) 0 = bs.getD (j / 8) 0 := by
      simp [List.getD_eq_getElem?_getD, hidx]
    have hne : j ≠ i := fun hji => hidx (by rw [hji])
    rw [hbyte, decide_eq_false hne, Bool.or_false]

end Bitmap
