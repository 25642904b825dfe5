import Mathlib

/-!
# Numbers as little-endian words

A list of `w`-bit words, least significant first, stands for the number
`value ws = ws[0] + 2 ^ w * ws[1] + ...`. Multiword arithmetic is proved
against it:

* `value_append`, `value_lt`, `value_dropLast`: the value of a concatenation,
  its bound, and that dropping the top word reduces modulo its place;
* `testBit_value`: bit `k` of the number is bit `k % w` of word `k / w`, so two
  numbers built of words compare bit by bit;
* `value_zipWith_add`, `value_map_split`: words each split into a low word and
  a carry into the word above add up to the number they were split from;
* `value_concat_lt_iff`, `compare_value_concat`: comparing from the most
  significant word down compares the numbers;
* `size_value_concat`: the bit length of a number is fixed by its top nonzero
  word.
-/

namespace Limbs

variable {w : Nat}

/-- The number a list of words stands for, least significant word first. -/
def value : List (BitVec w) → Nat
  | [] => 0
  | x :: xs => x.toNat + 2 ^ w * value xs

@[simp] theorem value_nil : value ([] : List (BitVec w)) = 0 := rfl

@[simp] theorem value_cons (x : BitVec w) (xs : List (BitVec w)) :
    value (x :: xs) = x.toNat + 2 ^ w * value xs := rfl

theorem value_append (xs ys : List (BitVec w)) :
    value (xs ++ ys) = value xs + 2 ^ (w * xs.length) * value ys := by
  induction xs with
  | nil => simp
  | cons x xs ih =>
    simp only [List.cons_append, value_cons, ih, List.length_cons, Nat.mul_succ, Nat.pow_add]
    ring

theorem value_lt (xs : List (BitVec w)) : value xs < 2 ^ (w * xs.length) := by
  induction xs with
  | nil => simp
  | cons x xs ih =>
    have hx := x.isLt
    rw [value_cons, List.length_cons, Nat.mul_succ, Nat.pow_add]
    calc x.toNat + 2 ^ w * value xs
        < 2 ^ w + 2 ^ w * value xs := by omega
      _ = 2 ^ w * (value xs + 1) := by ring
      _ ≤ 2 ^ w * 2 ^ (w * xs.length) := Nat.mul_le_mul_left _ ih
      _ = 2 ^ (w * xs.length) * 2 ^ w := Nat.mul_comm _ _

/-- Lists of as many words with the same number are the same. -/
theorem value_injective : ∀ {xs ys : List (BitVec w)}, xs.length = ys.length → value xs = value ys → xs = ys
  | [], [], _, _ => rfl
  | x :: xs, y :: ys, hlen, h => by
    rw [value_cons, value_cons] at h
    -- the bottom words agree modulo `2 ^ w`, the rest after dividing it out
    have hx : x = y := by
      apply BitVec.eq_of_toNat_eq
      have := congrArg (· % 2 ^ w) h
      simpa [Nat.add_mul_mod_self_left, Nat.mod_eq_of_lt x.isLt, Nat.mod_eq_of_lt y.isLt] using this
    subst hx
    rw [value_injective (Nat.succ.inj hlen) (Nat.eq_of_mul_eq_mul_left (Nat.two_pow_pos w) (by omega))]

@[simp] theorem value_replicate_zero (n : Nat) : value (List.replicate n (0 : BitVec w)) = 0 := by
  induction n with
  | zero => rfl
  | succ n ih =>
    rw [List.replicate_succ, value_cons, ih]
    simp

theorem value_concat (xs : List (BitVec w)) (x : BitVec w) :
    value (xs ++ [x]) = value xs + 2 ^ (w * xs.length) * x.toNat := by
  simp [value_append]

/-- Dropping the top word keeps the number below that word's place. -/
theorem value_dropLast (xs : List (BitVec w)) :
    value xs.dropLast = value xs % 2 ^ (w * (xs.length - 1)) := by
  rcases List.eq_nil_or_concat xs with rfl | ⟨ys, y, rfl⟩
  · simp
  · simp only [List.concat_eq_append, List.dropLast_concat, value_concat, List.length_append,
      List.length_singleton, Nat.add_sub_cancel]
    rw [Nat.add_mul_mod_self_left, Nat.mod_eq_of_lt (value_lt ys)]

/-- Words moved up one place, the top one dropped. -/
theorem value_dropLast_cons_zero (xs : List (BitVec w)) :
    value (0 :: xs).dropLast = 2 ^ w * value xs % 2 ^ (w * xs.length) := by
  rw [value_dropLast, value_cons, List.length_cons, Nat.add_sub_cancel]
  simp

/-- The bottom word is the number modulo its place. -/
theorem toNat_getD_zero (xs : List (BitVec w)) : (xs.getD 0 0).toNat = value xs % 2 ^ w := by
  cases xs with
  | nil => simp
  | cons x xs => rw [List.getD_cons_zero, value_cons, Nat.add_mul_mod_self_left, Nat.mod_eq_of_lt x.isLt]

/-- The low `k` words are the number modulo their place. -/
theorem value_take (xs : List (BitVec w)) (k : Nat) : value (xs.take k) = value xs % 2 ^ (w * k) := by
  by_cases hk : k ≤ xs.length
  · conv_rhs => rw [← List.take_append_drop k xs]
    rw [value_append, List.length_take_of_le hk, Nat.add_mul_mod_self_left,
      Nat.mod_eq_of_lt (by simpa [List.length_take_of_le hk] using value_lt (xs.take k))]
  · have hlt : value xs < 2 ^ (w * k) :=
      Nat.lt_of_lt_of_le (value_lt xs) (Nat.pow_le_pow_right (by decide) (Nat.mul_le_mul_left w (by omega)))
    rw [List.take_of_length_le (by omega), Nat.mod_eq_of_lt hlt]

theorem value_eq_zero_of_forall {xs : List (BitVec w)} (h : ∀ x ∈ xs, x = 0) : value xs = 0 := by
  induction xs with
  | nil => rfl
  | cons x xs ih =>
    rw [value_cons, h x List.mem_cons_self, ih fun y hy => h y (List.mem_cons_of_mem x hy)]
    simp

/-- The zero word as a literal has no bit set. -/
@[simp] theorem getLsbD_zero_word (i : Nat) : (0 : BitVec w).getLsbD i = false := BitVec.getLsbD_zero

/-- Bit `k` of the number is bit `k % w` of word `k / w`; past the last word
it is clear. -/
theorem testBit_value (hw : 0 < w) (xs : List (BitVec w)) (k : Nat) :
    (value xs).testBit k = (xs.getD (k / w) 0).getLsbD (k % w) := by
  induction xs generalizing k with
  | nil => simp
  | cons x xs ih =>
    rw [value_cons, Nat.add_comm, Nat.testBit_two_pow_mul_add _ x.isLt]
    by_cases hk : k < w
    · rw [if_pos hk, Nat.div_eq_of_lt hk, Nat.mod_eq_of_lt hk, List.getD_cons_zero,
        BitVec.testBit_toNat]
    · have hle : w ≤ k := Nat.le_of_not_lt hk
      rw [if_neg hk, ih, Nat.div_eq_sub_div hw hle, List.getD_cons_succ, Nat.mod_eq_sub_mod hle]

/-! ### Loops that write words in place -/

/-- A loop that rewrites words in place keeps the number of words. -/
theorem length_foldl_of_length {β : Type} {f : List (BitVec w) → β → List (BitVec w)}
    (hf : ∀ r b, (f r b).length = r.length) (l : List β) (r : List (BitVec w)) :
    (l.foldl f r).length = r.length := by
  induction l generalizing r with
  | nil => rfl
  | cons b l ih => rw [List.foldl_cons, ih, hf]

/-- `ret[i] += x`, read at word `j`. -/
theorem getD_modify_add (xs : List (BitVec w)) (i : Nat) (x : BitVec w) {j : Nat} (hj : j < xs.length) :
    (xs.modify i (· + x)).getD j 0 = xs.getD j 0 + if i = j then x else 0 := by
  rw [List.getD_eq_getElem _ _ (by rwa [List.length_modify]), List.getD_eq_getElem _ _ hj,
    List.getElem_modify]
  split <;> simp

/-- `if g { ret[i] += x }`, read at word `j`. -/
theorem getD_ite_modify_add (g : Prop) [Decidable g] (xs : List (BitVec w)) (i : Nat) (x : BitVec w)
    {j : Nat} (hj : j < xs.length) :
    (if g then xs.modify i (· + x) else xs).getD j 0 = xs.getD j 0 + if g ∧ i = j then x else 0 := by
  by_cases hg : g
  · rw [if_pos hg, getD_modify_add _ _ _ hj]
    simp [hg]
  · simp [hg]

/-- `ret[i] = f(ret[i])`, read at word `j`. -/
theorem getD_modify (xs : List (BitVec w)) (i : Nat) (f : BitVec w → BitVec w) (j : Nat) :
    (xs.modify i f).getD j 0 = if i = j ∧ j < xs.length then f (xs.getD j 0) else xs.getD j 0 := by
  by_cases hj : j < xs.length
  · rw [List.getD_eq_getElem _ _ (by rwa [List.length_modify]), List.getD_eq_getElem _ _ hj,
      List.getElem_modify]
    by_cases hij : i = j <;> simp [hij, hj]
  · rw [List.getD_eq_default _ _ (by rw [List.length_modify]; omega),
      List.getD_eq_default _ _ (by omega)]
    simp [hj]

/-- Setting bit `s` of the number in place. -/
theorem value_modify_or_shiftLeft_one (hw : 0 < w) (xs : List (BitVec w)) {s : Nat} (hs : s / w < xs.length) :
    value (xs.modify (s / w) (· ||| (1 : BitVec w) <<< (s % w))) = value xs ||| 2 ^ s := by
  apply Nat.eq_of_testBit_eq
  intro k
  rw [testBit_value hw, getD_modify, Nat.testBit_or, Nat.testBit_two_pow, testBit_value hw]
  by_cases hword : s / w = k / w
  · -- the word that holds bit `s`
    have hkw : k % w < w := Nat.mod_lt _ hw
    have hiff : s = k ↔ s % w = k % w := by
      constructor
      · rintro rfl
        rfl
      · intro h
        rw [← Nat.div_add_mod s w, ← Nat.div_add_mod k w, hword, h]
    have hbit : ((1 : BitVec w) <<< (s % w)).getLsbD (k % w) = decide (s = k) := by
      rw [BitVec.getLsbD_shiftLeft, show (1 : BitVec w) = 1#w from rfl, BitVec.getLsbD_one]
      by_cases h : s = k
      · subst h
        simp [hkw, hw]
      · have hne : s % w ≠ k % w := fun h' => h (hiff.mpr h')
        simp [h, hkw]
        omega
    rw [if_pos ⟨hword, hword ▸ hs⟩, BitVec.getLsbD_or, hbit]
  · rw [if_neg (fun h => hword h.1)]
    have hsk : s ≠ k := fun h => hword (h ▸ rfl)
    simp [hsk]

/-- A loop whose turn `b` adds `c b j` into word `j` adds into each word what
all its turns added. -/
theorem getD_foldl_of_adds {β : Type} {f : List (BitVec w) → β → List (BitVec w)} {c : β → Nat → BitVec w}
    (hlen : ∀ r b, (f r b).length = r.length)
    (hadd : ∀ r b j, j < r.length → (f r b).getD j 0 = r.getD j 0 + c b j)
    (l : List β) (r : List (BitVec w)) {j : Nat} (hj : j < r.length) :
    (l.foldl f r).getD j 0 = r.getD j 0 + (l.map (c · j)).sum := by
  induction l generalizing r with
  | nil => simp
  | cons b l ih =>
    rw [List.foldl_cons, ih (f r b) (by rwa [hlen]), hadd r b j hj, List.map_cons, List.sum_cons,
      BitVec.add_assoc]

/-- A sum over distinct indices of what holds at no index but `m`. -/
theorem sum_map_ite_eq_of_unique {M : Type} [AddCommMonoid M] {l : List Nat} (hl : l.Nodup)
    {p : Nat → Prop} [DecidablePred p] {m : Nat} (hp : ∀ i ∈ l, p i → i = m) (f : Nat → M) :
    (l.map fun i => if p i then f i else 0).sum = if m ∈ l ∧ p m then f m else 0 := by
  induction l with
  | nil => simp
  | cons a l ih =>
    obtain ⟨ha, hl⟩ := List.nodup_cons.mp hl
    have hrest := ih hl fun i hi => hp i (List.mem_cons_of_mem a hi)
    rw [List.map_cons, List.sum_cons, hrest]
    by_cases hpa : p a
    · -- `a` is `m`, which the rest does not hold
      obtain rfl := hp a List.mem_cons_self hpa
      simp [hpa, ha]
    · by_cases hma : m = a
      · subst hma
        simp [hpa, ha]
      · simp [hpa, hma]

/-- A word shifted down by `k` and one shifted up by `w - k` share no bit:
adding them is their `|||`. -/
theorem ushiftRight_and_shiftLeft_eq_zero (x y : BitVec w) (k : Nat) : x >>> k &&& y <<< (w - k) = 0 := by
  apply BitVec.eq_of_getLsbD_eq
  intro i hi
  simp only [BitVec.getLsbD_and, BitVec.getLsbD_ushiftRight, BitVec.getLsbD_shiftLeft]
  by_cases hik : i < w - k
  · simp [hik]
  · simp [BitVec.getLsbD_of_ge x (k + i) (by omega)]

/-! ### Carries -/

/-- One word of a sum: the wrapped sum, and `2 ^ w` when it wrapped, which
shows as the sum being below the first summand. -/
theorem toNat_add_add_wrapped (x y : BitVec w) :
    (x + y).toNat + (if x + y < x then 2 ^ w else 0) = x.toNat + y.toNat := by
  have hx := x.isLt
  have hy := y.isLt
  rw [BitVec.toNat_add]
  by_cases hwrap : x.toNat + y.toNat < 2 ^ w
  · have hlt : ¬ x + y < x := by
      rw [BitVec.lt_def, BitVec.toNat_add, Nat.mod_eq_of_lt hwrap]
      omega
    rw [if_neg hlt, Nat.mod_eq_of_lt hwrap, Nat.add_zero]
  · have hmod : (x.toNat + y.toNat) % 2 ^ w = x.toNat + y.toNat - 2 ^ w := by
      rw [Nat.mod_eq_sub_mod (by omega), Nat.mod_eq_of_lt (by omega)]
    have hlt : x + y < x := by
      rw [BitVec.lt_def, BitVec.toNat_add, hmod]
      omega
    rw [if_pos hlt, hmod]
    omega

/-- The wrapped sums of two lists of words, with a carry word of one for each
sum that wrapped, one word up, make the sum of the two numbers. -/
theorem value_zipWith_add (hw : 0 < w) {xs ys : List (BitVec w)} (hlen : xs.length = ys.length) :
    value (List.zipWith (· + ·) xs ys) +
        2 ^ w * value (List.zipWith (fun r x => if r < x then (1 : BitVec w) else 0)
          (List.zipWith (· + ·) xs ys) xs) =
      value xs + value ys := by
  induction xs generalizing ys with
  | nil => cases ys <;> simp_all
  | cons x xs ih =>
    cases ys with
    | nil => cases hlen
    | cons y ys =>
      have hrest := ih (Nat.succ.inj hlen)
      have hword := toNat_add_add_wrapped x y
      have hone : (if x + y < x then (1 : BitVec w) else 0).toNat * 2 ^ w =
          if x + y < x then 2 ^ w else 0 := by
        split <;> simp [Nat.mod_eq_of_lt (Nat.one_lt_two_pow (Nat.pos_iff_ne_zero.mp hw))]
      simp only [List.zipWith_cons_cons, value_cons]
      calc (x + y).toNat + 2 ^ w * value (List.zipWith (· + ·) xs ys) +
            2 ^ w * ((if x + y < x then (1 : BitVec w) else 0).toNat +
              2 ^ w * value (List.zipWith (fun r x => if r < x then 1 else 0)
                (List.zipWith (· + ·) xs ys) xs))
          = ((x + y).toNat + (if x + y < x then (1 : BitVec w) else 0).toNat * 2 ^ w) +
              2 ^ w * (value (List.zipWith (· + ·) xs ys) +
                2 ^ w * value (List.zipWith (fun r x => if r < x then 1 else 0)
                  (List.zipWith (· + ·) xs ys) xs)) := by ring
        _ = x.toNat + y.toNat + 2 ^ w * (value xs + value ys) := by rw [hone, hword, hrest]
        _ = x.toNat + 2 ^ w * value xs + (y.toNat + 2 ^ w * value ys) := by ring

/-- Words each split by `f` into a low word and a word carried up, where
`low + 2 ^ w * carried = x * c`, make the number times `c`. -/
theorem value_map_split {f : BitVec w → BitVec w × BitVec w} {c : Nat}
    (hf : ∀ x, (f x).1.toNat + 2 ^ w * (f x).2.toNat = x.toNat * c) (xs : List (BitVec w)) :
    value (xs.map fun x => (f x).1) + 2 ^ w * value (xs.map fun x => (f x).2) = value xs * c := by
  induction xs with
  | nil => simp
  | cons x xs ih =>
    simp only [List.map_cons, value_cons]
    calc (f x).1.toNat + 2 ^ w * value (xs.map fun x => (f x).1) +
          2 ^ w * ((f x).2.toNat + 2 ^ w * value (xs.map fun x => (f x).2))
        = ((f x).1.toNat + 2 ^ w * (f x).2.toNat) +
            2 ^ w * (value (xs.map fun x => (f x).1) + 2 ^ w * value (xs.map fun x => (f x).2)) := by
          ring
      _ = x.toNat * c + 2 ^ w * (value xs * c) := by rw [hf x, ih]
      _ = (x.toNat + 2 ^ w * value xs) * c := by ring

/-- The complement of every word gives the complement of the number. -/
theorem value_map_not_add (xs : List (BitVec w)) :
    value (xs.map (~~~ ·)) + value xs + 1 = 2 ^ (w * xs.length) := by
  induction xs with
  | nil => simp
  | cons x xs ih =>
    have hx := x.isLt
    have hnot : (~~~x).toNat + x.toNat + 1 = 2 ^ w := by rw [BitVec.toNat_not]; omega
    simp only [List.map_cons, value_cons, List.length_cons, Nat.mul_succ, Nat.pow_add]
    calc (~~~x).toNat + 2 ^ w * value (xs.map (~~~ ·)) + (x.toNat + 2 ^ w * value xs) + 1
        = ((~~~x).toNat + x.toNat + 1) + 2 ^ w * (value (xs.map (~~~ ·)) + value xs) := by ring
      _ = 2 ^ w * (value (xs.map (~~~ ·)) + value xs + 1) := by rw [hnot]; ring
      _ = 2 ^ (w * xs.length) * 2 ^ w := by rw [ih, Nat.mul_comm]

/-! ### Order and bit length -/

/-- Two numbers of as many words compare as their top words do, and as the
rest where the top words are equal. -/
theorem value_concat_lt_iff {xs ys : List (BitVec w)} (hlen : xs.length = ys.length)
    (x y : BitVec w) :
    value (xs ++ [x]) < value (ys ++ [y]) ↔ x < y ∨ (x = y ∧ value xs < value ys) := by
  have hxs : value xs < 2 ^ (w * ys.length) := hlen ▸ value_lt xs
  have hys := value_lt ys
  rw [value_concat, value_concat, hlen, BitVec.lt_def]
  generalize 2 ^ (w * ys.length) = B at hxs hys ⊢
  constructor
  · intro h
    rcases Nat.lt_trichotomy x.toNat y.toNat with hlt | heq | hgt
    · exact .inl hlt
    · refine .inr ⟨BitVec.eq_of_toNat_eq heq, ?_⟩
      rw [heq] at h
      omega
    · have : B * (y.toNat + 1) ≤ B * x.toNat := Nat.mul_le_mul_left B hgt
      rw [Nat.mul_add, Nat.mul_one] at this
      omega
  · rintro (hlt | ⟨rfl, hlt⟩)
    · have : B * (x.toNat + 1) ≤ B * y.toNat := Nat.mul_le_mul_left B hlt
      rw [Nat.mul_add, Nat.mul_one] at this
      omega
    · omega

/-- `compare` from the most significant word down. -/
theorem compare_value_concat {xs ys : List (BitVec w)} (hlen : xs.length = ys.length) (x y : BitVec w) :
    compare (value (xs ++ [x])) (value (ys ++ [y])) =
      if x < y then .lt else if y < x then .gt else compare (value xs) (value ys) := by
  by_cases hxy : x < y
  · rw [if_pos hxy, Nat.compare_eq_lt, value_concat_lt_iff hlen]
    exact .inl hxy
  · by_cases hyx : y < x
    · rw [if_neg hxy, if_pos hyx, Nat.compare_eq_gt, value_concat_lt_iff hlen.symm]
      exact .inl hyx
    · -- equal top words
      have heq : x = y := BitVec.eq_of_toNat_eq (by rw [BitVec.lt_def] at hxy hyx; omega)
      subst heq
      rw [if_neg hxy, if_neg hyx]
      rcases Nat.lt_trichotomy (value xs) (value ys) with hlt | heq | hgt
      · rw [Nat.compare_eq_lt.mpr hlt, Nat.compare_eq_lt, value_concat_lt_iff hlen]
        exact .inr ⟨rfl, hlt⟩
      · rw [Nat.compare_eq_eq.mpr heq, Nat.compare_eq_eq, value_concat, value_concat, heq, hlen]
      · rw [Nat.compare_eq_gt.mpr hgt, Nat.compare_eq_gt, value_concat_lt_iff hlen.symm]
        exact .inr ⟨rfl, hgt⟩

/-- A number whose top word `x` is nonzero has the bit length of `x` plus the
bits of the words below it. -/
theorem size_value_concat (xs : List (BitVec w)) {x : BitVec w} (hx : x ≠ 0) :
    (value (xs ++ [x])).size = w * xs.length + x.toNat.size := by
  have hlow := value_lt xs
  have hpos : 0 < x.toNat := Nat.pos_of_ne_zero fun h => hx (BitVec.eq_of_toNat_eq h)
  have hsize : 0 < x.toNat.size := Nat.size_pos.mpr hpos
  rw [value_concat]
  generalize hB : 2 ^ (w * xs.length) = B at hlow
  apply Nat.le_antisymm
  · -- below the place of the top word plus its size
    rw [Nat.size_le, Nat.pow_add, hB]
    have htop : x.toNat + 1 ≤ 2 ^ x.toNat.size := Nat.lt_size_self _
    calc value xs + B * x.toNat < B * (x.toNat + 1) := by rw [Nat.mul_add, Nat.mul_one]; omega
      _ ≤ B * 2 ^ x.toNat.size := Nat.mul_le_mul_left B htop
  · -- at least the top word's highest bit at its place
    have hlead : 2 ^ (x.toNat.size - 1) ≤ x.toNat := Nat.lt_size.mp (by omega)
    rw [show w * xs.length + x.toNat.size = (w * xs.length + (x.toNat.size - 1)) + 1 by omega]
    apply Nat.lt_size.mpr
    rw [Nat.pow_add, hB]
    calc B * 2 ^ (x.toNat.size - 1) ≤ B * x.toNat := Nat.mul_le_mul_left B hlead
      _ ≤ value xs + B * x.toNat := Nat.le_add_left _ _

end Limbs
