import BlockstackCore.Library.Limbs
import BlockstackCore.Library.BitCount
import BlockstackCore.Library.Outcome

/-!
# Fixed-width big integers

`construct_uint!` (`util/uint.rs`) makes `Uint256` and `Uint512`: arrays of
4 and 8 `u64` words, least significant first, with the order that
`impl_array_newtype!` (`util/macros.rs`) gives them. `Uint n` is `$name` with
`$n_words = n`; each operation is its loop as the code writes it, over the
words as a list. What they compute is said through `toBitVec`, the number the
words stand for:

* `value_add`: `add` ends, because each round of carries starts at least one
  word higher than the one before (`lowZeros_lt_carries`), and it wraps at
  `2 ^ (64 * n)`; `sub` and `mul_u32` are built on it;
* `value_shl`, `value_shr`: the shifts shift the number; `getD_shl` and
  `getD_shr` give each word of the result from the two input words it is made
  of;
* `value_mul`: `mul` sums the products of `self` with each 32-bit digit of
  `other`, moved to its place;
* `cmp_eq_compare`, `bits_eq_size`: the order is the order of the numbers and
  `bits` is the length of the number in binary;
* `value_divLoop`, `div_spec`: the long division keeps
  `self = ret * other + sub_copy` with the remainder below the shifted divisor,
  and ends with the quotient;
* `increment_eq`: checked for overflow, `increment` never carries.

The code is compiled with overflow checks in debug builds. The `+=` of
`mul_u32`, `shl` and `shr` never overflow: the two values added into one word
have no bit in common (`ushiftRight_and_shiftLeft_eq_zero`), and the carry of
`mul_u32` is at most `2 ^ 32`. They are `+` here. The `u64` products of
`mul_u32` are below `2 ^ 64`.
-/

namespace BlockstackCore

open Limbs Outcome BitCount

/-- `$name(pub [u64; $n_words])`: a little-endian number of `nWords` words. -/
structure Uint (nWords : Nat) where
  words : List (BitVec 64)
  length_eq : words.length = nWords
  deriving DecidableEq, Repr

namespace Uint

variable {n : Nat}

/-! ### Constructors -/

/-- `BitArray::zero`. -/
def zero : Uint n := ⟨List.replicate n 0, List.length_replicate⟩

theorem length_set_replicate (i : Nat) (x : BitVec 64) : ((List.replicate n 0).set i x).length = n :=
  (List.length_set ..).trans List.length_replicate

/-- `BitArray::one`: `ret[0] = 1`. -/
def one : Uint n := ⟨(List.replicate n 0).set 0 1, length_set_replicate 0 1⟩

/-- `BitArray::max`: every word `0xffffffffffffffff`. -/
def max : Uint n := ⟨List.replicate n (BitVec.allOnes 64), List.length_replicate⟩

/-- `from_u64`: `ret[0] = init`. -/
def fromU64 (init : BitVec 64) : Uint n := ⟨(List.replicate n 0).set 0 init, length_set_replicate 0 init⟩

/-- `from_u128`: the low and the high half of `init` in words 0 and 1. -/
def fromU128 (init : BitVec 128) : Uint n :=
  ⟨((List.replicate n 0).set 0 ((init &&& 0xffffffffffffffffffffffffffffffff#128).setWidth 64)).set 1
      ((init >>> 64).setWidth 64),
    (List.length_set ..).trans (length_set_replicate 0 _)⟩

/-- `low_u32`: `arr[0] as u32`. -/
def lowU32 (self : Uint n) : BitVec 32 := (self.words.getD 0 0).setWidth 32

/-- `low_u64`: `arr[0] as u64`. -/
def lowU64 (self : Uint n) : BitVec 64 := self.words.getD 0 0

/-- `Uint512::from_uint256`: the four words, then four zero words. -/
def fromUint256 (n : Uint 4) : Uint 8 :=
  ⟨n.words ++ List.replicate 4 0, by rw [List.length_append, n.length_eq, List.length_replicate]⟩

/-- `Uint512::to_uint256`: the four low words. -/
def toUint256 (self : Uint 8) : Uint 4 :=
  ⟨self.words.take 4, by rw [List.length_take, self.length_eq]; rfl⟩

/-! ### Addition -/

/-- The loop of `add`: the wrapped sum of each pair of words. -/
def wrappingSums (me you : List (BitVec 64)) : List (BitVec 64) := List.zipWith (· + ·) me you

/-- ... and `carry[i + 1] = 1` where the sum of word `i` wrapped, seen as
`ret[i] < me[i]`, for every word but the top one. -/
def carries (me you : List (BitVec 64)) : List (BitVec 64) :=
  (0 :: List.zipWith (fun r m => if r < m then 1 else 0) (wrappingSums me you) me).dropLast

/-- The zero words at the bottom of a number. -/
def lowZeros : List (BitVec 64) → Nat
  | [] => 0
  | x :: xs => if x = 0 then lowZeros xs + 1 else 0

section Lengths

variable {me you : List (BitVec 64)}

theorem length_wrappingSums (hme : me.length = n) (hyou : you.length = n) :
    (wrappingSums me you).length = n := by
  simp [wrappingSums, hme, hyou]

theorem length_carries (hme : me.length = n) (hyou : you.length = n) : (carries me you).length = n := by
  simp [carries, wrappingSums, hme, hyou]

theorem lowZeros_lt_length : ∀ {xs : List (BitVec 64)}, (∃ x ∈ xs, x ≠ 0) → lowZeros xs < xs.length
  | [], ⟨_, hx, _⟩ => nomatch hx
  | x :: xs, ⟨y, hy, hne⟩ => by
    rw [lowZeros, List.length_cons]
    split
    · rename_i hx
      -- the nonzero word is further up
      have hup : ∃ z ∈ xs, z ≠ 0 := by
        rcases List.mem_cons.mp hy with rfl | hy
        · exact absurd hx hne
        · exact ⟨y, hy, hne⟩
      exact Nat.succ_lt_succ (lowZeros_lt_length hup)
    · exact Nat.succ_pos _

/-- Where `you` has a zero word, `me + you` does not wrap. -/
theorem lowZeros_le_wraps (hlen : me.length = you.length) :
    lowZeros you ≤ lowZeros (List.zipWith (fun r m => if r < m then (1 : BitVec 64) else 0)
      (wrappingSums me you) me) := by
  induction me generalizing you with
  | nil => cases you with
    | nil => exact Nat.le_refl _
    | cons => cases hlen
  | cons m me ih =>
    cases you with
    | nil => cases hlen
    | cons y you =>
      simp only [wrappingSums, List.zipWith_cons_cons, lowZeros]
      by_cases hy : y = 0
      · have hwrap : ¬ m + y < m := by simp [hy]
        rw [if_pos hy, if_neg hwrap, if_pos rfl]
        exact Nat.succ_le_succ (ih (Nat.succ.inj hlen))
      · rw [if_neg hy]
        exact Nat.zero_le _

theorem lowZeros_dropLast : ∀ {xs : List (BitVec 64)}, (∃ x ∈ xs.dropLast, x ≠ 0) →
    lowZeros xs.dropLast = lowZeros xs
  | [], ⟨_, hx, _⟩ => nomatch hx
  | [_], ⟨_, hx, _⟩ => nomatch hx
  | x :: y :: ys, ⟨z, hz, hne⟩ => by
    rw [List.dropLast_cons_cons, lowZeros, lowZeros]
    split
    · rename_i hx
      have hup : ∃ z ∈ (y :: ys).dropLast, z ≠ 0 := by
        rcases List.mem_cons.mp hz with rfl | hz
        · exact absurd hx hne
        · exact ⟨z, hz, hne⟩
      rw [lowZeros_dropLast hup]
    · rfl

/-- A round of `add` that carries starts its carries above the bottom zero
words of the number it added. -/
theorem lowZeros_lt_carries (hlen : me.length = you.length) (h : (carries me you).contains 1 = true) :
    lowZeros you < lowZeros (carries me you) := by
  have hne : ∃ x ∈ carries me you, x ≠ 0 := ⟨1, List.contains_iff_mem.mp h, by decide⟩
  rw [carries, lowZeros_dropLast hne, lowZeros, if_pos rfl]
  exact Nat.lt_succ_of_le (lowZeros_le_wraps hlen)

theorem sub_lowZeros_carries_lt (hme : me.length = n) (hyou : you.length = n)
    (h : (carries me you).contains 1 = true) :
    n - lowZeros (carries me you) < n - lowZeros you := by
  have hlt := lowZeros_lt_carries (hme.trans hyou.symm) h
  have hne : ∃ x ∈ carries me you, x ≠ 0 := ⟨1, List.contains_iff_mem.mp h, by decide⟩
  have hbound := lowZeros_lt_length hne
  rw [length_carries hme hyou] at hbound
  omega

end Lengths

/-- `impl Add`: the wrapped sums, plus the carries as a second number, until
no sum wraps. A carry out of the top word is lost. -/
def add (me you : Uint n) : Uint n :=
  let ret : Uint n := ⟨wrappingSums me.words you.words, length_wrappingSums me.length_eq you.length_eq⟩
  let carry : Uint n := ⟨carries me.words you.words, length_carries me.length_eq you.length_eq⟩
  if _h : carry.words.contains 1 then add ret carry else ret
termination_by n - lowZeros you.words
decreasing_by exact sub_lowZeros_carries_lt me.length_eq you.length_eq _h

/-- `impl Not`. -/
def not (self : Uint n) : Uint n := ⟨self.words.map (~~~ ·), (List.length_map _).trans self.length_eq⟩

/-- `impl Sub`: `self + !other + BitArray::one()`. -/
def sub (self other : Uint n) : Uint n := (self.add other.not).add one

/-! ### Order and bit length -/

/-- The loop of `Ord::cmp`, over the words from the most significant down. -/
def cmpWords : List (BitVec 64) → List (BitVec 64) → Ordering
  | x :: xs, y :: ys => if x < y then .lt else if x > y then .gt else cmpWords xs ys
  | _, _ => .eq

/-- `Ord::cmp` of `impl_array_newtype!`: from word `len - 1` down. -/
def cmp (self other : Uint n) : Ordering := cmpWords self.words.reverse other.words.reverse

/-- The loop of `bits`, over the words from the most significant down: the
first nonzero word above word 0 gives `64 * (its index + 1)` less its leading
zeros; else word 0 gives `64` less its own. -/
def bitsFrom : List (BitVec 64) → Nat
  | [] => 0
  | [x] => 64 - x.clz.toNat
  | x :: rest@(_ :: _) => if x > 0 then 64 * (rest.length + 1) - x.clz.toNat else bitsFrom rest

/-- `bits`: the least number of bits needed to represent the number. -/
def bits (self : Uint n) : Nat := bitsFrom self.words.reverse

/-! ### Multiplication -/

/-- One turn of the loop of `mul_u32`: the factor times the word's high and
low halves, `ret[i]` the low word of their sum, and what goes to
`carry[i + 1]`: the top half of `upper`, and one if the sum overflowed. -/
def mulWord (other : BitVec 32) (w : BitVec 64) : BitVec 64 × BitVec 64 :=
  let upper := other.setWidth 64 * (w >>> 32)
  let lower := other.setWidth 64 * (w &&& 0xFFFFFFFF)
  let sum := lower + (upper <<< 32)
  (sum, (upper >>> 32) + if BitVec.uaddOverflow lower (upper <<< 32) then 1 else 0)

/-- `mul_u32`: `ret + carry`, where the top word makes no carry. -/
def mulU32 (self : Uint n) (other : BitVec 32) : Uint n :=
  (⟨self.words.map fun w => (mulWord other w).1, (List.length_map _).trans self.length_eq⟩ : Uint n).add
    ⟨(0 :: self.words.map fun w => (mulWord other w).2).dropLast,
      by rw [List.length_dropLast, List.length_cons, List.length_map, self.length_eq, Nat.add_sub_cancel]⟩

/-! ### Shifts -/

/-- One turn of the loop of `shl`: word `i` goes up `wordShift` words and
`bitShift` bits, and its top `bitShift` bits into the word above. -/
def shlStep (original : List (BitVec 64)) (n wordShift bitShift : Nat) (ret : List (BitVec 64))
    (i : Nat) : List (BitVec 64) :=
  -- Shift
  let ret := if bitShift < 64 ∧ i + wordShift < n then
      ret.modify (i + wordShift) (· + (original.getD i 0 <<< bitShift))
    else ret
  -- Carry
  if bitShift > 0 ∧ i + wordShift + 1 < n then
    ret.modify (i + wordShift + 1) (· + (original.getD i 0 >>> (64 - bitShift)))
  else ret

theorem length_shlStep (original : List (BitVec 64)) (n wordShift bitShift : Nat)
    (ret : List (BitVec 64)) (i : Nat) : (shlStep original n wordShift bitShift ret i).length = ret.length := by
  unfold shlStep
  split <;> split <;> simp

/-- `impl Shl<usize>`. -/
def shl (self : Uint n) (shift : Nat) : Uint n :=
  ⟨(List.range n).foldl (shlStep self.words n (shift / 64) (shift % 64)) (List.replicate n 0),
    (length_foldl_of_length (fun r i => length_shlStep self.words n _ _ r i) _ _).trans List.length_replicate⟩

/-- One turn of the loop of `shr`: word `i` goes down `wordShift` words and
`bitShift` bits, and the low `bitShift` bits of the word above come in on top. -/
def shrStep (original : List (BitVec 64)) (n wordShift bitShift : Nat) (ret : List (BitVec 64))
    (i : Nat) : List (BitVec 64) :=
  -- Shift
  let ret := ret.modify (i - wordShift) (· + (original.getD i 0 >>> bitShift))
  -- Carry
  if bitShift > 0 ∧ i < n - 1 then
    ret.modify (i - wordShift) (· + (original.getD (i + 1) 0 <<< (64 - bitShift)))
  else ret

theorem length_shrStep (original : List (BitVec 64)) (n wordShift bitShift : Nat)
    (ret : List (BitVec 64)) (i : Nat) : (shrStep original n wordShift bitShift ret i).length = ret.length := by
  unfold shrStep
  split <;> simp

/-- `impl Shr<usize>`: the loop runs over `word_shift..n`. -/
def shr (self : Uint n) (shift : Nat) : Uint n :=
  ⟨(List.range' (shift / 64) (n - shift / 64)).foldl (shrStep self.words n (shift / 64) (shift % 64))
      (List.replicate n 0),
    (length_foldl_of_length (fun r i => length_shrStep self.words n _ _ r i) _ _).trans List.length_replicate⟩

/-- One turn of the loop of `mul`: add `self` times the 32-bit digit
`to_mul` of `other` at bit `32 * i`, moved to that place. -/
def mulStep (self other me : Uint n) (i : Nat) : Uint n :=
  let toMul := (other.shr (32 * i)).lowU32
  me.add ((self.mulU32 toMul).shl (32 * i))

/-- `impl Mul`: one turn for each of the `2 * n` digits of `other`. -/
def mul (self other : Uint n) : Uint n := (List.range (2 * n)).foldl (mulStep self other) zero

/-! ### Division -/

/-- One turn of the loop of `div`: where the divisor shifted to `shift` fits
in what is left, set bit `shift` of the quotient and take it off. -/
def divStep (subCopy shiftCopy : Uint n) (ret : List (BitVec 64)) (shift : Nat) :
    List (BitVec 64) × Uint n :=
  if subCopy.cmp shiftCopy != .lt then
    (ret.modify (shift / 64) (· ||| (1 : BitVec 64) <<< (shift % 64)), subCopy.sub shiftCopy)
  else (ret, subCopy)

/-- The loop of `div`, from bit `shift` down to bit 0, halving the shifted
divisor after each turn; at `shift == 0` it breaks. -/
def divLoop (subCopy shiftCopy : Uint n) (ret : List (BitVec 64)) : Nat → List (BitVec 64)
  | 0 => (divStep subCopy shiftCopy ret 0).1
  | shift + 1 =>
    let (ret, subCopy) := divStep subCopy shiftCopy ret (shift + 1)
    divLoop subCopy (shiftCopy.shr 1) ret shift

theorem length_divStep (subCopy shiftCopy : Uint n) (ret : List (BitVec 64)) (shift : Nat) :
    (divStep subCopy shiftCopy ret shift).1.length = ret.length := by
  unfold divStep
  split <;> simp

theorem length_divLoop (subCopy shiftCopy : Uint n) (ret : List (BitVec 64)) (shift : Nat) :
    (divLoop subCopy shiftCopy ret shift).length = ret.length := by
  induction shift generalizing subCopy shiftCopy ret with
  | zero => exact length_divStep ..
  | succ shift ih => rw [divLoop, ih, length_divStep]

/-- `impl Div`: `assert!(your_bits != 0)`, then bitwise long division from
bit `my_bits - your_bits` down. -/
def div (self other : Uint n) : Outcome Empty (Uint n) :=
  let myBits := self.bits
  let yourBits := other.bits
  if yourBits = 0 then .panic
  else if myBits < yourBits then ok ⟨List.replicate n 0, List.length_replicate⟩
  else
    let shift := myBits - yourBits
    ok ⟨divLoop self (other.shl shift) (List.replicate n 0) shift,
      (length_divLoop ..).trans List.length_replicate⟩

/-! ### The number a `Uint` stands for -/

/-- The number the words stand for, as a `64 * n`-bit vector. -/
def toBitVec (a : Uint n) : BitVec (64 * n) := BitVec.ofNat (64 * n) (value a.words)

theorem value_lt_two_pow (a : Uint n) : value a.words < 2 ^ (64 * n) := by
  have h := value_lt a.words
  rwa [a.length_eq] at h

@[simp] theorem toNat_toBitVec (a : Uint n) : a.toBitVec.toNat = value a.words := by
  rw [toBitVec, BitVec.toNat_ofNat, Nat.mod_eq_of_lt a.value_lt_two_pow]

/-- Two `Uint n` with the same number are the same words. -/
theorem ext_value {a b : Uint n} (h : value a.words = value b.words) : a = b := by
  obtain ⟨xs, hxs⟩ := a
  obtain ⟨ys, hys⟩ := b
  obtain rfl := value_injective (hxs.trans hys.symm) h
  rfl

/-- A word list below the modulus is its own value's residue. -/
theorem value_mod (a : Uint n) : value a.words % 2 ^ (64 * n) = value a.words :=
  Nat.mod_eq_of_lt a.value_lt_two_pow

/-! ### Constructors and conversions -/

/-- Every word all ones: the largest number. -/
theorem value_max : value (max : Uint n).words = 2 ^ (64 * n) - 1 := by
  have h := value_map_not_add (List.replicate n (0 : BitVec 64))
  rw [List.map_replicate, value_replicate_zero, List.length_replicate] at h
  have hones : ~~~(0 : BitVec 64) = BitVec.allOnes 64 := BitVec.not_zero
  show value (List.replicate n (BitVec.allOnes 64)) = _
  rw [← hones]
  omega

theorem value_fromU128 (hn : 2 ≤ n) (init : BitVec 128) : value (fromU128 init : Uint n).words = init.toNat := by
  obtain ⟨m, rfl⟩ : ∃ m, n = m + 2 := ⟨n - 2, by omega⟩
  have hlow : ((init &&& 0xffffffffffffffffffffffffffffffff#128).setWidth 64).toNat = init.toNat % 2 ^ 64 := by
    rw [BitVec.toNat_setWidth, BitVec.toNat_and, show (0xffffffffffffffffffffffffffffffff#128).toNat =
      2 ^ 128 - 1 from rfl, Nat.and_two_pow_sub_one_eq_mod, Nat.mod_eq_of_lt init.isLt]
  have hhigh : ((init >>> 64).setWidth 64).toNat = init.toNat / 2 ^ 64 := by
    rw [BitVec.toNat_setWidth, BitVec.toNat_ushiftRight, Nat.shiftRight_eq_div_pow,
      Nat.mod_eq_of_lt (Nat.div_lt_of_lt_mul (by have := init.isLt; omega))]
  show value (((List.replicate (m + 2) (0 : BitVec 64)).set 0 _).set 1 _) = _
  rw [List.replicate_succ, List.replicate_succ, List.set_cons_zero, List.set_cons_succ, List.set_cons_zero,
    value_cons, value_cons, value_replicate_zero, hlow, hhigh, Nat.mul_zero, Nat.add_zero,
    Nat.mod_add_div]

theorem value_fromUint256 (a : Uint 4) : value (fromUint256 a).words = value a.words := by
  show value (a.words ++ List.replicate 4 0) = _
  rw [value_append, value_replicate_zero, Nat.mul_zero, Nat.add_zero]

theorem value_toUint256 (a : Uint 8) : value (toUint256 a).words = value a.words % 2 ^ 256 :=
  value_take a.words 4

/-! ### `add` -/

section Add

variable {me you : List (BitVec 64)}

/-- The carries of a round are its wraps one word up, the top one dropped. -/
theorem value_carries (hme : me.length = n) (hyou : you.length = n) :
    value (carries me you) =
      2 ^ 64 * value (List.zipWith (fun r m => if r < m then (1 : BitVec 64) else 0)
        (wrappingSums me you) me) % 2 ^ (64 * n) := by
  rw [carries, value_dropLast_cons_zero, List.length_zipWith, length_wrappingSums hme hyou, hme,
    Nat.min_self]

/-- One round of `add`: the wrapped sums and the carries add up to the sum of
the two numbers, modulo `2 ^ (64 * n)`. -/
theorem value_wrappingSums_add_carries (hme : me.length = n) (hyou : you.length = n) :
    (value (wrappingSums me you) + value (carries me you)) % 2 ^ (64 * n) =
      (value me + value you) % 2 ^ (64 * n) := by
  rw [value_carries hme hyou, Nat.add_mod_mod, ← value_zipWith_add (by decide) (hme.trans hyou.symm)]
  rfl

theorem mem_carries {c : BitVec 64} (hc : c ∈ carries me you) : c = 0 ∨ c = 1 := by
  rcases List.mem_cons.mp (List.mem_of_mem_dropLast hc) with rfl | hwrap
  · exact .inl rfl
  · obtain ⟨i, hi, rfl⟩ := List.mem_iff_getElem.mp hwrap
    rw [List.getElem_zipWith]
    split
    · exact .inr rfl
    · exact .inl rfl

/-- A round with no carry set has carries worth nothing. -/
theorem value_carries_of_not_contains (h : ¬ (carries me you).contains 1 = true) :
    value (carries me you) = 0 :=
  value_eq_zero_of_forall fun _ hc =>
    (mem_carries hc).resolve_right fun h1 => h (List.contains_iff_mem.mpr (h1 ▸ hc))

end Add

/-- `add` ends with the sum, wrapped at `2 ^ (64 * n)`. -/
theorem value_add (me you : Uint n) :
    value (me.add you).words = (value me.words + value you.words) % 2 ^ (64 * n) := by
  induction me, you using add.induct with
  | case1 me you ret carry hcarry ih =>
    -- another round: it adds the carries to the wrapped sums
    rw [add, dif_pos hcarry, ih]
    exact value_wrappingSums_add_carries me.length_eq you.length_eq
  | case2 me you carry hcarry =>
    rw [add, dif_neg hcarry, ← value_wrappingSums_add_carries me.length_eq you.length_eq,
      value_carries_of_not_contains hcarry, Nat.add_zero]
    exact (value_mod _).symm

theorem toBitVec_add (me you : Uint n) : (me.add you).toBitVec = me.toBitVec + you.toBitVec := by
  apply BitVec.eq_of_toNat_eq
  rw [toNat_toBitVec, BitVec.toNat_add, toNat_toBitVec, toNat_toBitVec, value_add]

/-! ### `sub` -/

theorem value_not (a : Uint n) : value a.not.words + value a.words + 1 = 2 ^ (64 * n) := by
  rw [not, value_map_not_add, a.length_eq]

theorem value_one : value (one : Uint n).words = 1 % 2 ^ (64 * n) := by
  cases n with
  | zero => rfl
  | succ n =>
    show value ((List.replicate (n + 1) (0 : BitVec 64)).set 0 1) = _
    rw [Nat.mod_eq_of_lt (Nat.one_lt_two_pow (by omega)), List.replicate_succ, List.set_cons_zero,
      value_cons, value_replicate_zero, Nat.mul_zero, Nat.add_zero]
    rfl

/-- `sub` is `self - other` modulo `2 ^ (64 * n)`: `!other + 1` is the
complement of `other`. -/
theorem value_sub (a b : Uint n) :
    value (a.sub b).words = (value a.words + (2 ^ (64 * n) - value b.words)) % 2 ^ (64 * n) := by
  have hnot := value_not b
  have hsum : value a.words + value b.not.words + 1 = value a.words + (2 ^ (64 * n) - value b.words) := by
    omega
  rw [sub, value_add, value_add, value_one, Nat.add_mod_mod, Nat.mod_add_mod, hsum]

theorem toBitVec_sub (a b : Uint n) : (a.sub b).toBitVec = a.toBitVec - b.toBitVec := by
  apply BitVec.eq_of_toNat_eq
  rw [toNat_toBitVec, BitVec.toNat_sub, toNat_toBitVec, toNat_toBitVec, value_sub, Nat.add_comm]

/-- Where `other` is at most `self`, `sub` does not wrap. -/
theorem value_sub_of_le {a b : Uint n} (h : value b.words ≤ value a.words) :
    value (a.sub b).words = value a.words - value b.words := by
  have ha := a.value_lt_two_pow
  rw [value_sub, show value a.words + (2 ^ (64 * n) - value b.words) =
      (value a.words - value b.words) + 2 ^ (64 * n) by omega, Nat.add_mod_right,
    Nat.mod_eq_of_lt (by omega)]

/-! ### Order and bit length -/

theorem cmpWords_eq_compare : ∀ {xs ys : List (BitVec 64)}, xs.length = ys.length →
    cmpWords xs ys = compare (value xs.reverse) (value ys.reverse)
  | [], [], _ => rfl
  | x :: xs, y :: ys, hlen => by
    have hrev : xs.reverse.length = ys.reverse.length := by
      rw [List.length_reverse, List.length_reverse]
      exact Nat.succ.inj hlen
    rw [List.reverse_cons, List.reverse_cons, compare_value_concat hrev, cmpWords,
      cmpWords_eq_compare (Nat.succ.inj hlen)]

/-- The order of `impl_array_newtype!` is the order of the numbers. -/
theorem cmp_eq_compare (a b : Uint n) : a.cmp b = compare (value a.words) (value b.words) := by
  rw [cmp, cmpWords_eq_compare (by rw [List.length_reverse, List.length_reverse, a.length_eq,
    b.length_eq]), List.reverse_reverse, List.reverse_reverse]

/-- The order of `impl_array_newtype!` is the order of the numbers: `cmp`
says `Less` exactly for a smaller number, `Greater` for a larger one, and
`Equal` only for the same words. -/
theorem cmp_iff_toBitVec (a b : Uint n) :
    (a.cmp b = .lt ↔ a.toBitVec < b.toBitVec) ∧ (a.cmp b = .eq ↔ a = b) ∧
      (a.cmp b = .gt ↔ b.toBitVec < a.toBitVec) := by
  rw [cmp_eq_compare, Nat.compare_eq_lt, Nat.compare_eq_eq, Nat.compare_eq_gt, BitVec.lt_def,
    BitVec.lt_def, toNat_toBitVec, toNat_toBitVec]
  exact ⟨Iff.rfl, ⟨ext_value, fun h => h ▸ rfl⟩, Iff.rfl⟩

theorem bitsFrom_eq_size : ∀ xs : List (BitVec 64), bitsFrom xs = (value xs.reverse).size
  | [] => by simp [bitsFrom]
  | [x] => by simp [bitsFrom, size_toNat]
  | x :: y :: ys => by
    rw [bitsFrom, List.reverse_cons]
    split
    · rename_i hx
      -- the top nonzero word fixes the length
      have hne : x ≠ 0 := by
        rintro rfl
        exact BitVec.lt_irrefl 0 hx
      have hclz := toNat_clz_lt hne
      rw [size_value_concat _ hne, size_toNat, List.length_reverse]
      omega
    · rename_i hx
      have hzero : x = 0 := by
        apply BitVec.eq_of_toNat_eq
        simp only [gt_iff_lt, BitVec.lt_def, show (0 : BitVec 64).toNat = 0 from rfl] at hx ⊢
        omega
      rw [hzero, value_concat, bitsFrom_eq_size (y :: ys)]
      simp

/-- `bits` is the length of the number in binary. -/
theorem bits_eq_size (a : Uint n) : a.bits = (value a.words).size := by
  rw [bits, bitsFrom_eq_size, List.reverse_reverse]

/-! ### `mul_u32` -/

/-- One word of `mul_u32`: the low word plus `2 ^ 64` times what it carries is
the word times the factor. -/
theorem mulWord_spec (other : BitVec 32) (w : BitVec 64) :
    (mulWord other w).1.toNat + 2 ^ 64 * (mulWord other w).2.toNat = w.toNat * other.toNat := by
  have ho := other.isLt
  have hw := Nat.div_add_mod w.toNat (2 ^ 32)
  have hhi : w.toNat / 2 ^ 32 < 2 ^ 32 := Nat.div_lt_of_lt_mul (by have := w.isLt; omega)
  have hlo : w.toNat % 2 ^ 32 < 2 ^ 32 := Nat.mod_lt _ (by decide)
  -- the products of the factor with the two 32-bit halves fit a word
  have hPlt : other.toNat * (w.toNat / 2 ^ 32) < 2 ^ 32 * 2 ^ 32 := Nat.mul_lt_mul'' ho hhi
  have hQlt : other.toNat * (w.toNat % 2 ^ 32) < 2 ^ 32 * 2 ^ 32 := Nat.mul_lt_mul'' ho hlo
  have hw' : w.toNat * other.toNat =
      2 ^ 32 * (other.toNat * (w.toNat / 2 ^ 32)) + other.toNat * (w.toNat % 2 ^ 32) := by
    nth_rewrite 1 [← hw]
    ring
  generalize hP : other.toNat * (w.toNat / 2 ^ 32) = P at hPlt hw'
  generalize hQ : other.toNat * (w.toNat % 2 ^ 32) = Q at hQlt hw'
  have hother : (other.setWidth 64).toNat = other.toNat := by
    rw [BitVec.toNat_setWidth, Nat.mod_eq_of_lt (by omega)]
  have hupper : (other.setWidth 64 * (w >>> 32)).toNat = P := by
    rw [BitVec.toNat_mul, hother, BitVec.toNat_ushiftRight, Nat.shiftRight_eq_div_pow, hP,
      Nat.mod_eq_of_lt (by omega)]
  have hlower : (other.setWidth 64 * (w &&& 0xFFFFFFFF)).toNat = Q := by
    have hmask : (0xFFFFFFFF : BitVec 64).toNat = 2 ^ 32 - 1 := by simp
    rw [BitVec.toNat_mul, hother, BitVec.toNat_and, hmask, Nat.and_two_pow_sub_one_eq_mod, hQ,
      Nat.mod_eq_of_lt (by omega)]
  dsimp only [mulWord]
  rw [BitVec.toNat_add, BitVec.toNat_add, BitVec.toNat_shiftLeft, BitVec.toNat_ushiftRight, hupper,
    hlower, BitVec.uaddOverflow, BitVec.toNat_shiftLeft, hupper, hlower, Nat.shiftLeft_eq,
    Nat.shiftRight_eq_div_pow, hw']
  -- the carry is the top half of `upper`, plus one where `lower + (upper << 32)` overflowed
  split
  · rename_i hover
    simp only [decide_eq_true_eq] at hover
    rw [show (1 : BitVec 64).toNat = 1 from rfl]
    omega
  · rename_i hover
    simp only [decide_eq_true_eq] at hover
    rw [show (0 : BitVec 64).toNat = 0 from rfl]
    omega

/-- `mul_u32` multiplies by the factor, wrapping at `2 ^ (64 * n)`. -/
theorem value_mulU32 (a : Uint n) (other : BitVec 32) :
    value (a.mulU32 other).words = value a.words * other.toNat % 2 ^ (64 * n) := by
  rw [mulU32, value_add]
  dsimp only
  rw [value_dropLast_cons_zero, List.length_map, a.length_eq, Nat.add_mod_mod,
    value_map_split (mulWord_spec other) a.words]

/-- `mul_u32` is multiplication by the factor, wrapped at `2 ^ (64 * n)`. -/
theorem toBitVec_mulU32 (a : Uint n) (other : BitVec 32) :
    (a.mulU32 other).toBitVec = a.toBitVec * other.setWidth (64 * n) := by
  apply BitVec.eq_of_toNat_eq
  rw [toNat_toBitVec, BitVec.toNat_mul, toNat_toBitVec, BitVec.toNat_setWidth, Nat.mul_mod_mod,
    value_mulU32]

/-! ### Shifts -/

/-- One turn of `shl`, read at word `j`: what the shift and the carry add there. -/
theorem getD_shlStep (original ret : List (BitVec 64)) (n wordShift bitShift i : Nat) {j : Nat}
    (hj : j < ret.length) :
    (shlStep original n wordShift bitShift ret i).getD j 0 =
      ret.getD j 0 +
        ((if (bitShift < 64 ∧ i + wordShift < n) ∧ i + wordShift = j then original.getD i 0 <<< bitShift
            else 0) +
          if (bitShift > 0 ∧ i + wordShift + 1 < n) ∧ i + wordShift + 1 = j then
            original.getD i 0 >>> (64 - bitShift)
          else 0) := by
  have hj' : j < (if bitShift < 64 ∧ i + wordShift < n then
      ret.modify (i + wordShift) (· + (original.getD i 0 <<< bitShift)) else ret).length := by
    split <;> simpa using hj
  unfold shlStep
  rw [getD_ite_modify_add _ _ _ _ hj', getD_ite_modify_add _ _ _ _ hj, BitVec.add_assoc]

/-- Word `j` of `shl`: word `j - word_shift` moved up `bit_shift` bits, and
the top `bit_shift` bits of the word below it. -/
theorem getD_shl (a : Uint n) (shift : Nat) {j : Nat} (hj : j < n) :
    (a.shl shift).words.getD j 0 =
      (if shift / 64 ≤ j then a.words.getD (j - shift / 64) 0 <<< (shift % 64) else 0) +
        if shift % 64 > 0 ∧ shift / 64 + 1 ≤ j then
          a.words.getD (j - shift / 64 - 1) 0 >>> (64 - shift % 64)
        else 0 := by
  have hbs : shift % 64 < 64 := Nat.mod_lt _ (by decide)
  rw [shl]
  dsimp only
  rw [getD_foldl_of_adds (fun r i => length_shlStep ..) (fun r i j hj => getD_shlStep _ r _ _ _ i hj) _ _
      (by rwa [List.length_replicate]), List.getD_replicate, zero_add, List.sum_map_add,
    sum_map_ite_eq_of_unique List.nodup_range (m := j - shift / 64) (fun i _ h => by omega),
    sum_map_ite_eq_of_unique List.nodup_range (m := j - shift / 64 - 1) (fun i _ h => by omega)]
  -- each piece lands in word `j` from exactly one turn, if from any
  · congr 1
    · exact if_congr (by simp only [List.mem_range]; omega) rfl rfl
    · exact if_congr (by simp only [List.mem_range]; omega) rfl rfl
  · exact hj

/-- The two pieces that `shl` adds into one word share no bit. -/
theorem shl_pieces_and_eq_zero (c d : Prop) [Decidable c] [Decidable d] (x y : BitVec 64) {bs : Nat}
    (hbs : bs < 64) : (if c then x <<< bs else 0) &&& (if d then y >>> (64 - bs) else 0) = 0 := by
  have h := ushiftRight_and_shiftLeft_eq_zero y x (64 - bs)
  rw [show 64 - (64 - bs) = bs by omega, BitVec.and_comm] at h
  split <;> split <;> simp [h]

/-- `shl` shifts the number up, dropping what goes past the top word. -/
theorem value_shl (a : Uint n) (shift : Nat) :
    value (a.shl shift).words = value a.words * 2 ^ shift % 2 ^ (64 * n) := by
  have hbs : shift % 64 < 64 := Nat.mod_lt _ (by decide)
  apply Nat.eq_of_testBit_eq
  intro k
  rw [testBit_value (by decide), Nat.testBit_mod_two_pow, Nat.testBit_mul_two_pow,
    testBit_value (by decide)]
  by_cases hk : k < 64 * n
  · have hj : k / 64 < n := by omega
    rw [getD_shl a shift hj, BitVec.add_eq_or_of_and_eq_zero _ _ (shl_pieces_and_eq_zero _ _ _ _ hbs),
      BitVec.getLsbD_or, decide_eq_true hk, Bool.true_and]
    by_cases hb : shift % 64 ≤ k % 64
    · -- bit `k` is a bit of word `k / 64 - word_shift`, moved up
      have hcarry : (if shift % 64 > 0 ∧ shift / 64 + 1 ≤ k / 64 then
          a.words.getD (k / 64 - shift / 64 - 1) 0 >>> (64 - shift % 64) else 0).getLsbD (k % 64) = false := by
        split
        · rw [BitVec.getLsbD_ushiftRight]
          exact BitVec.getLsbD_of_ge _ _ (by omega)
        · exact BitVec.getLsbD_zero
      rw [hcarry, Bool.or_false]
      by_cases hws : shift / 64 ≤ k / 64
      · rw [if_pos hws, BitVec.getLsbD_shiftLeft, decide_eq_true (show shift ≤ k by omega),
          show (k - shift) / 64 = k / 64 - shift / 64 by omega,
          show (k - shift) % 64 = k % 64 - shift % 64 by omega]
        simp [Nat.mod_lt k (by decide : 0 < 64), Nat.not_lt.mpr hb]
      · rw [if_neg hws, getLsbD_zero_word, decide_eq_false (show ¬ shift ≤ k by omega), Bool.false_and]
    · -- bit `k` is one of the top bits of word `k / 64 - word_shift - 1`, carried
      have hshift : (if shift / 64 ≤ k / 64 then a.words.getD (k / 64 - shift / 64) 0 <<< (shift % 64)
          else 0).getLsbD (k % 64) = false := by
        split
        · rw [BitVec.getLsbD_shiftLeft]
          simp [Nat.lt_of_not_le hb]
        · exact BitVec.getLsbD_zero
      rw [hshift, Bool.false_or]
      by_cases hws : shift / 64 + 1 ≤ k / 64
      · rw [if_pos ⟨by omega, hws⟩, BitVec.getLsbD_ushiftRight, decide_eq_true (show shift ≤ k by omega),
          show (k - shift) / 64 = k / 64 - shift / 64 - 1 by omega,
          show (k - shift) % 64 = 64 - shift % 64 + k % 64 by omega, Bool.true_and]
      · rw [if_neg (fun h => hws h.2), getLsbD_zero_word, decide_eq_false (show ¬ shift ≤ k by omega),
          Bool.false_and]
  · -- past the top word
    rw [List.getD_eq_default _ _ (by rw [a.shl shift |>.length_eq]; omega), getLsbD_zero_word,
      decide_eq_false hk, Bool.false_and]

theorem toBitVec_shl (a : Uint n) (shift : Nat) : (a.shl shift).toBitVec = a.toBitVec <<< shift := by
  apply BitVec.eq_of_toNat_eq
  rw [toNat_toBitVec, BitVec.toNat_shiftLeft, toNat_toBitVec, Nat.shiftLeft_eq, value_shl]

/-- One turn of `shr`, read at word `j`: what the shift and the carry add there. -/
theorem getD_shrStep (original ret : List (BitVec 64)) (n wordShift bitShift i : Nat) {j : Nat}
    (hj : j < ret.length) :
    (shrStep original n wordShift bitShift ret i).getD j 0 =
      ret.getD j 0 +
        ((if i - wordShift = j then original.getD i 0 >>> bitShift else 0) +
          if (bitShift > 0 ∧ i < n - 1) ∧ i - wordShift = j then
            original.getD (i + 1) 0 <<< (64 - bitShift)
          else 0) := by
  have hj' : j < (ret.modify (i - wordShift) (· + (original.getD i 0 >>> bitShift))).length := by
    rwa [List.length_modify]
  unfold shrStep
  rw [getD_ite_modify_add _ _ _ _ hj', getD_modify_add _ _ _ hj, BitVec.add_assoc]

/-- Word `j` of `shr`: word `j + word_shift` moved down `bit_shift` bits, and
the low `bit_shift` bits of the word above it. -/
theorem getD_shr (a : Uint n) (shift : Nat) {j : Nat} (hj : j < n) :
    (a.shr shift).words.getD j 0 =
      (if j + shift / 64 < n then a.words.getD (j + shift / 64) 0 >>> (shift % 64) else 0) +
        if shift % 64 > 0 ∧ j + shift / 64 < n - 1 then
          a.words.getD (j + shift / 64 + 1) 0 <<< (64 - shift % 64)
        else 0 := by
  rw [shr]
  dsimp only
  rw [getD_foldl_of_adds (fun r i => length_shrStep ..) (fun r i j hj => getD_shrStep _ r _ _ _ i hj) _ _
      (by rwa [List.length_replicate]), List.getD_replicate, zero_add, List.sum_map_add,
    sum_map_ite_eq_of_unique List.nodup_range' (m := j + shift / 64)
      (fun i hi h => by rw [List.mem_range'_1] at hi; omega),
    sum_map_ite_eq_of_unique List.nodup_range' (m := j + shift / 64)
      (fun i hi h => by rw [List.mem_range'_1] at hi; omega)]
  -- both pieces land in word `j` from the turn `i = j + word_shift`, if it runs
  · congr 1
    · exact if_congr (by simp only [List.mem_range'_1]; omega) rfl rfl
    · exact if_congr (by simp only [List.mem_range'_1]; omega) rfl rfl
  · exact hj

/-- The two pieces that `shr` adds into one word share no bit. -/
theorem shr_pieces_and_eq_zero (c d : Prop) [Decidable c] [Decidable d] (x y : BitVec 64) (bs : Nat) :
    (if c then x >>> bs else 0) &&& (if d then y <<< (64 - bs) else 0) = 0 := by
  split <;> split <;> simp [ushiftRight_and_shiftLeft_eq_zero]

/-- `shr` shifts the number down. -/
theorem value_shr (a : Uint n) (shift : Nat) : value (a.shr shift).words = value a.words / 2 ^ shift := by
  have hbs : shift % 64 < 64 := Nat.mod_lt _ (by decide)
  apply Nat.eq_of_testBit_eq
  intro k
  rw [testBit_value (by decide), Nat.testBit_div_two_pow, testBit_value (by decide)]
  by_cases hk : k < 64 * n
  · have hj : k / 64 < n := by omega
    rw [getD_shr a shift hj, BitVec.add_eq_or_of_and_eq_zero _ _ (shr_pieces_and_eq_zero _ _ _ _ _),
      BitVec.getLsbD_or]
    by_cases hb : shift % 64 + k % 64 < 64
    · -- bit `k` is a bit of word `k / 64 + word_shift`, moved down
      have hcarry : (if shift % 64 > 0 ∧ k / 64 + shift / 64 < n - 1 then
          a.words.getD (k / 64 + shift / 64 + 1) 0 <<< (64 - shift % 64) else 0).getLsbD (k % 64) = false := by
        split
        · rw [BitVec.getLsbD_shiftLeft]
          simp [show k % 64 < 64 - shift % 64 by omega]
        · exact BitVec.getLsbD_zero
      rw [hcarry, Bool.or_false, show (k + shift) / 64 = k / 64 + shift / 64 by omega,
        show (k + shift) % 64 = shift % 64 + k % 64 by omega]
      split
      · rw [BitVec.getLsbD_ushiftRight]
      · rw [getLsbD_zero_word, List.getD_eq_default _ _ (by rw [a.length_eq]; omega),
          getLsbD_zero_word]
    · -- bit `k` is one of the low bits of word `k / 64 + word_shift + 1`, carried in
      have hshift : (if k / 64 + shift / 64 < n then
          a.words.getD (k / 64 + shift / 64) 0 >>> (shift % 64) else 0).getLsbD (k % 64) = false := by
        split
        · rw [BitVec.getLsbD_ushiftRight]
          exact BitVec.getLsbD_of_ge _ _ (by omega)
        · exact BitVec.getLsbD_zero
      rw [hshift, Bool.false_or, show (k + shift) / 64 = k / 64 + shift / 64 + 1 by omega,
        show (k + shift) % 64 = k % 64 - (64 - shift % 64) by omega]
      split
      · rw [BitVec.getLsbD_shiftLeft]
        simp [show ¬ k % 64 < 64 - shift % 64 by omega, Nat.mod_lt k (by decide : 0 < 64)]
      · rename_i hcarry
        rw [getLsbD_zero_word, List.getD_eq_default _ _ (by rw [a.length_eq]; omega),
          getLsbD_zero_word]
  · -- past the top word
    rw [List.getD_eq_default _ _ (by rw [a.shr shift |>.length_eq]; omega), getLsbD_zero_word,
      List.getD_eq_default _ _ (by rw [a.length_eq]; omega), getLsbD_zero_word]

theorem toBitVec_shr (a : Uint n) (shift : Nat) : (a.shr shift).toBitVec = a.toBitVec >>> shift := by
  apply BitVec.eq_of_toNat_eq
  rw [toNat_toBitVec, BitVec.toNat_ushiftRight, toNat_toBitVec, Nat.shiftRight_eq_div_pow, value_shr]

/-! ### `mul` -/

/-- `(other >> (32 * i)).low_u32()` is the `i`-th 32-bit digit of `other`. -/
theorem toNat_lowU32_shr (other : Uint n) (i : Nat) :
    ((other.shr (32 * i)).lowU32).toNat = value other.words / 2 ^ (32 * i) % 2 ^ 32 := by
  rw [lowU32, BitVec.toNat_setWidth, toNat_getD_zero, value_shr,
    Nat.mod_mod_of_dvd _ (Nat.pow_dvd_pow 2 (by decide : 32 ≤ 64))]

/-- After the turns for the digits below `i`, `mul` holds `self` times the low
`32 * i` bits of `other`, modulo `2 ^ (64 * n)`. -/
theorem value_foldl_mulStep (self other : Uint n) (i : Nat) :
    value ((List.range i).foldl (mulStep self other) zero).words ≡
      value self.words * (value other.words % 2 ^ (32 * i)) [MOD 2 ^ (64 * n)] := by
  induction i with
  | zero =>
    show value (List.replicate n (0 : BitVec 64)) ≡ _ [MOD _]
    rw [value_replicate_zero, Nat.mul_zero, Nat.pow_zero, Nat.mod_one, Nat.mul_zero]
  | succ i ih =>
    rw [List.range_succ, List.foldl_append, List.foldl_cons, List.foldl_nil, mulStep, value_add, value_shl, value_mulU32, toNat_lowU32_shr]
    -- the digit at bit `32 * i` joins the low bits
    have hdigits : value other.words % 2 ^ (32 * (i + 1)) =
        value other.words % 2 ^ (32 * i) + 2 ^ (32 * i) * (value other.words / 2 ^ (32 * i) % 2 ^ 32) := by
      rw [Nat.mul_succ, Nat.pow_add, Nat.mod_mul]
    generalize value ((List.range i).foldl (mulStep self other) zero).words = me at ih ⊢
    generalize value other.words / 2 ^ (32 * i) % 2 ^ 32 = d at hdigits ⊢
    calc (me + value self.words * d % 2 ^ (64 * n) * 2 ^ (32 * i) % 2 ^ (64 * n)) % 2 ^ (64 * n)
        ≡ me + value self.words * d % 2 ^ (64 * n) * 2 ^ (32 * i) [MOD 2 ^ (64 * n)] :=
          (Nat.mod_modEq _ _).trans (Nat.ModEq.add_left _ (Nat.mod_modEq _ _))
      _ ≡ value self.words * (value other.words % 2 ^ (32 * i)) + value self.words * d * 2 ^ (32 * i)
            [MOD 2 ^ (64 * n)] := Nat.ModEq.add ih (Nat.ModEq.mul_right _ (Nat.mod_modEq _ _))
      _ = value self.words * (value other.words % 2 ^ (32 * (i + 1))) := by rw [hdigits]; ring

/-- `mul` is the product, wrapped at `2 ^ (64 * n)`. -/
theorem value_mul (self other : Uint n) :
    value (self.mul other).words = value self.words * value other.words % 2 ^ (64 * n) := by
  have h := value_foldl_mulStep self other (2 * n)
  rw [show 32 * (2 * n) = 64 * n by omega, Nat.mod_eq_of_lt other.value_lt_two_pow] at h
  rw [mul, ← h, value_mod]

theorem toBitVec_mul (self other : Uint n) : (self.mul other).toBitVec = self.toBitVec * other.toBitVec := by
  apply BitVec.eq_of_toNat_eq
  rw [toNat_toBitVec, BitVec.toNat_mul, toNat_toBitVec, toNat_toBitVec, value_mul]

/-! ### `div` -/

section Div

variable {b : Nat}

/-- One turn of the long division at bit `shift`: the quotient times the
divisor plus what is left stays the same, what is left drops below the
divisor shifted to `shift`, and the quotient gains at most bit `shift`. -/
theorem divStep_spec {subCopy shiftCopy : Uint n} {ret : List (BitVec 64)} {shift : Nat}
    (hlen : ret.length = n) (hshift : value shiftCopy.words = b * 2 ^ shift)
    (hsub : value subCopy.words < b * 2 ^ (shift + 1)) (hret : 2 ^ (shift + 1) ∣ value ret) :
    (divStep subCopy shiftCopy ret shift).1.length = n ∧
      value (divStep subCopy shiftCopy ret shift).1 * b + value (divStep subCopy shiftCopy ret shift).2.words =
        value ret * b + value subCopy.words ∧
      value (divStep subCopy shiftCopy ret shift).2.words < b * 2 ^ shift ∧
      2 ^ shift ∣ value (divStep subCopy shiftCopy ret shift).1 := by
  have hpow : 2 ^ (shift + 1) = 2 * 2 ^ shift := by rw [Nat.pow_succ, Nat.mul_comm]
  have hdvd : 2 ^ shift ∣ value ret := Nat.dvd_trans (Nat.pow_dvd_pow 2 (Nat.le_succ shift)) hret
  refine ⟨(length_divStep ..).trans hlen, ?_⟩
  unfold divStep
  rw [cmp_eq_compare]
  by_cases hge : value shiftCopy.words ≤ value subCopy.words
  · -- the shifted divisor fits: bit `shift` is set and the divisor taken off
    have hnlt : compare (value subCopy.words) (value shiftCopy.words) ≠ .lt :=
      fun h => absurd (Nat.compare_eq_lt.mp h) (Nat.not_lt.mpr hge)
    rw [if_pos (by simpa using hnlt)]
    have hword : shift / 64 < ret.length := by
      have hlt := shiftCopy.value_lt_two_pow
      have hb0 : 0 < b := Nat.pos_of_ne_zero fun h0 => by simp [h0] at hsub
      have : 2 ^ shift < 2 ^ (64 * n) := calc
        2 ^ shift ≤ b * 2 ^ shift := Nat.le_mul_of_pos_left _ hb0
        _ < 2 ^ (64 * n) := hshift ▸ hlt
      have := (Nat.pow_lt_pow_iff_right (by decide)).mp this
      omega
    obtain ⟨m, hm⟩ := hret
    have hset : value (ret.modify (shift / 64) (· ||| (1 : BitVec 64) <<< (shift % 64))) =
        value ret + 2 ^ shift := by
      rw [value_modify_or_shiftLeft_one (by decide) ret hword, hm,
        ← Nat.two_pow_add_eq_or_of_lt (Nat.pow_lt_pow_succ (by decide)) m]
    dsimp only
    rw [hset, value_sub_of_le hge, hshift]
    refine ⟨?_, ?_, ?_⟩
    · rw [Nat.add_mul, Nat.mul_comm (2 ^ shift) b]
      rw [hshift] at hge
      omega
    · rw [hpow] at hsub
      rw [hshift] at hge
      rw [show b * (2 * 2 ^ shift) = 2 * (b * 2 ^ shift) by ring] at hsub
      omega
    · exact ⟨2 * m + 1, by rw [hm, hpow]; ring⟩
  · -- it does not: nothing changes, and what is left is below it
    have hlt : compare (value subCopy.words) (value shiftCopy.words) = .lt :=
      Nat.compare_eq_lt.mpr (Nat.lt_of_not_le hge)
    rw [if_neg (by simp [hlt])]
    exact ⟨rfl, hshift ▸ Nat.lt_of_not_le hge, hdvd⟩

/-- The long division loop from bit `shift` down ends with the quotient of
`ret * b + sub_copy` by `b`. -/
theorem value_divLoop : ∀ (shift : Nat) (subCopy shiftCopy : Uint n) (ret : List (BitVec 64)),
    ret.length = n → value shiftCopy.words = b * 2 ^ shift →
    value subCopy.words < b * 2 ^ (shift + 1) → 2 ^ (shift + 1) ∣ value ret →
    value (divLoop subCopy shiftCopy ret shift) = (value ret * b + value subCopy.words) / b
  | 0, subCopy, shiftCopy, ret, hlen, hshift, hsub, hret => by
    obtain ⟨-, hsum, hrem, -⟩ := divStep_spec hlen hshift hsub hret
    rw [divLoop, ← hsum, Nat.pow_zero, Nat.mul_one] at *
    rw [Nat.add_comm, Nat.add_mul_div_right _ _ (by omega), Nat.div_eq_of_lt hrem, Nat.zero_add]
  | shift + 1, subCopy, shiftCopy, ret, hlen, hshift, hsub, hret => by
    obtain ⟨hlen', hsum, hrem, hret'⟩ := divStep_spec hlen hshift hsub hret
    -- the shifted divisor halves for the next bit
    have hhalf : value (shiftCopy.shr 1).words = b * 2 ^ shift := by
      rw [value_shr, hshift, Nat.pow_succ, ← Nat.mul_assoc, Nat.pow_one,
        Nat.mul_div_cancel _ (by decide)]
    rw [divLoop]
    dsimp only
    rw [value_divLoop shift _ _ _ hlen' hhalf hrem hret', hsum]

end Div

/-- `div` panics on a zero divisor, and otherwise gives the quotient. -/
theorem div_spec (a b : Uint n) :
    (value b.words = 0 ∧ a.div b = .panic) ∨
      (0 < value b.words ∧ ∃ q, a.div b = ok q ∧ value q.words = value a.words / value b.words) := by
  have hA := bits_eq_size a
  have hB := bits_eq_size b
  unfold div
  dsimp only
  by_cases hb : value b.words = 0
  · exact .inl ⟨hb, by rw [if_pos (by rw [hB]; exact Nat.size_eq_zero.mpr hb)]⟩
  · have hbpos : 0 < value b.words := Nat.pos_of_ne_zero hb
    have hsize : b.bits ≠ 0 := fun h => hb (Nat.size_eq_zero.mp (hB ▸ h))
    -- the divisor's top bit
    have hlead : 2 ^ (b.bits - 1) ≤ value b.words := Nat.lt_size.mp (by omega)
    have hbtop : value b.words < 2 ^ b.bits := hB ▸ Nat.lt_size_self _
    have hatop : value a.words < 2 ^ a.bits := hA ▸ Nat.lt_size_self _
    refine .inr ⟨hbpos, ?_⟩
    rw [if_neg hsize]
    by_cases hsmall : a.bits < b.bits
    · -- fewer bits than the divisor: the quotient is zero
      refine ⟨_, if_pos hsmall, ?_⟩
      have hlt : value a.words < value b.words := calc
        value a.words < 2 ^ a.bits := hatop
        _ ≤ 2 ^ (b.bits - 1) := Nat.pow_le_pow_right (by decide) (by omega)
        _ ≤ value b.words := hlead
      show value (List.replicate n (0 : BitVec 64)) = _
      rw [value_replicate_zero, Nat.div_eq_of_lt hlt]
    · refine ⟨_, if_neg hsmall, ?_⟩
      show value (divLoop a (b.shl (a.bits - b.bits)) (List.replicate n 0) (a.bits - b.bits)) = _
      generalize hs : a.bits - b.bits = shift
      -- the divisor moved up to the top bit of `self` does not wrap
      have hfit : value b.words * 2 ^ shift < 2 ^ (64 * n) := calc
        value b.words * 2 ^ shift < 2 ^ b.bits * 2 ^ shift :=
          Nat.mul_lt_mul_of_pos_right hbtop (Nat.two_pow_pos _)
        _ = 2 ^ a.bits := by rw [← Nat.pow_add]; congr 1; omega
        _ ≤ 2 ^ (64 * n) := Nat.pow_le_pow_right (by decide) (hA ▸ Nat.size_le.mpr a.value_lt_two_pow)
      have hshl : value (b.shl shift).words = value b.words * 2 ^ shift := by
        rw [value_shl, Nat.mod_eq_of_lt hfit]
      have hsub : value a.words < value b.words * 2 ^ (shift + 1) := calc
        value a.words < 2 ^ a.bits := hatop
        _ = 2 ^ (b.bits - 1) * 2 ^ (shift + 1) := by rw [← Nat.pow_add]; congr 1; omega
        _ ≤ value b.words * 2 ^ (shift + 1) := Nat.mul_le_mul_right _ hlead
      rw [value_divLoop shift a (b.shl shift) _ List.length_replicate hshl hsub
        (by rw [value_replicate_zero]; exact Nat.dvd_zero _), value_replicate_zero, Nat.zero_mul,
        Nat.zero_add]

/-! ### `increment` -/

/-- `+= 1` on a word, checked: it panics where it overflows. -/
def checkedIncr (w : BitVec 64) : Outcome Empty (BitVec 64) :=
  if w = BitVec.allOnes 64 then .panic else ok (w + 1)

/-- `Uint256::increment`: `arr[0] += 1`, and one word further each time the
word just incremented is zero. -/
def increment (self : Uint 4) : Outcome Empty (Uint 4) := do
  let arr := self.words
  let w0 ← checkedIncr (arr.getD 0 0)
  if w0 = 0 then
    let w1 ← checkedIncr (arr.getD 1 0)
    if w1 = 0 then
      let w2 ← checkedIncr (arr.getD 2 0)
      if w2 = 0 then
        let w3 ← checkedIncr (arr.getD 3 0)
        ok ⟨[w0, w1, w2, w3], rfl⟩
      else ok ⟨[w0, w1, w2, arr.getD 3 0], rfl⟩
    else ok ⟨[w0, w1, arr.getD 2 0, arr.getD 3 0], rfl⟩
  else ok ⟨[w0, arr.getD 1 0, arr.getD 2 0, arr.getD 3 0], rfl⟩

/-- With overflow checks, `increment` never carries: it panics exactly when
the low word is all ones, and otherwise adds one. -/
theorem increment_eq (a : Uint 4) :
    a.increment = if a.words.getD 0 0 = BitVec.allOnes 64 then .panic else ok (a.add one) := by
  obtain ⟨ws, hlen⟩ := a
  match ws, hlen with
  | [w0, w1, w2, w3], _ =>
    unfold increment checkedIncr
    by_cases hmax : w0 = BitVec.allOnes 64
    · simp [hmax]
    · -- the low word is below `u64::MAX`: no word wraps
      have hlt : w0.toNat + 1 < 2 ^ 64 := by
        have h := BitVec.toNat_lt_twoPow_of_le (Nat.le_refl 64) (x := w0)
        have hne : w0.toNat ≠ 2 ^ 64 - 1 := fun h' => hmax (BitVec.eq_of_toNat_eq (by simp [h']))
        omega
      have hsucc : (w0 + 1).toNat = w0.toNat + 1 := by
        rw [BitVec.toNat_add, show (1 : BitVec 64).toNat = 1 from rfl, Nat.mod_eq_of_lt hlt]
      have hne : w0 + 1 ≠ 0 := fun h => by
        have := congrArg BitVec.toNat h
        rw [hsucc] at this
        simp at this
      simp only [List.getD_cons_zero, List.getD_cons_succ, if_neg hmax, ok_bind, if_neg hne]
      congr 1
      apply ext_value
      rw [value_add, value_one]
      simp only [value_cons, value_nil, hsucc]
      have hbound := value_lt_two_pow (⟨[w0, w1, w2, w3], rfl⟩ : Uint 4)
      simp only [value_cons, value_nil] at hbound
      omega

end Uint

end BlockstackCore
