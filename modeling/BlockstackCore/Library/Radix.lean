import Mathlib

/-!
# Little-endian digits with a carry

A loop that converts a number from one base to another emits digits, least
significant first, and holds back a carry: after each step
`ofDigits b out + carry * b ^ out.length` is the number read so far, and
`ofDigits_concat_carry` is what one emitted digit does to it. The output may
end in zero digits. Dropping them from the end (`rdropWhile`) gives
`Nat.digits`, the only digits of the number with no leading zero.
-/

namespace Radix

open Nat (ofDigits)

/-- Dropping from the end commutes with a map. -/
theorem rdropWhile_map {α β : Type} (p : β → Bool) (f : α → β) (l : List α) :
    (l.map f).rdropWhile p = (l.rdropWhile (p ∘ f)).map f := by
  rw [← List.reverse_reverse l, List.map_reverse, List.rdropWhile_reverse, List.rdropWhile_reverse,
    List.dropWhile_map, List.map_reverse]

/-- Two predicates that agree on a list drop the same end of it. -/
theorem rdropWhile_congr {α : Type} {p q : α → Bool} {l : List α} (h : ∀ x ∈ l, p x = q x) :
    l.rdropWhile p = l.rdropWhile q := by
  induction l using List.reverseRecOn with
  | nil => rfl
  | append_singleton l x ih =>
    have hx : p x = q x := h x (by simp)
    rw [List.rdropWhile_concat, List.rdropWhile_concat, hx, ih fun y hy => h y (by simp [hy])]

/-- Zero digits at the most significant end do not change the number. -/
theorem ofDigits_rdropWhile_zero (b : ℕ) (l : List ℕ) :
    ofDigits b (l.rdropWhile (· == 0)) = ofDigits b l := by
  have hzeros : l.rtakeWhile (· == 0) = List.replicate (l.rtakeWhile (· == 0)).length 0 :=
    List.eq_replicate_iff.mpr ⟨rfl, fun x hx => by simpa using List.mem_rtakeWhile_imp hx⟩
  conv_rhs => rw [← List.rdropWhile_append_rtakeWhile (p := (· == 0)) (l := l), hzeros]
  rw [Nat.ofDigits_append_replicate_zero]

/-- The digits of a number are any digit list for it, with its zeros at the
most significant end dropped. -/
theorem digits_ofDigits_eq_rdropWhile {b : ℕ} (hb : 1 < b) (l : List ℕ) (hl : ∀ x ∈ l, x < b) :
    Nat.digits b (ofDigits b l) = l.rdropWhile (· == 0) := by
  rw [← ofDigits_rdropWhile_zero b l]
  apply Nat.digits_ofDigits b hb
  · exact fun x hx => hl x ((List.rdropWhile_prefix _ l).subset hx)
  · intro hne
    simpa using List.rdropWhile_last_not (· == 0) l hne

/-- One emitted digit: the digit and the carry after it stand for
`d + b * c` at the digit's place. -/
theorem ofDigits_concat_carry (b : ℕ) (l : List ℕ) (d c : ℕ) :
    ofDigits b (l ++ [d]) + c * b ^ (l ++ [d]).length = ofDigits b l + (d + b * c) * b ^ l.length := by
  rw [Nat.ofDigits_append, Nat.ofDigits_singleton, List.length_append, List.length_singleton, pow_succ]
  ring

/-- The most significant digit of a number is not zero. -/
theorem takeWhile_reverse_digits (b n : ℕ) :
    ((Nat.digits b n).reverse.takeWhile (· == 0)) = [] := by
  rcases Nat.eq_zero_or_pos n with rfl | hn
  · simp
  · have hne : Nat.digits b n ≠ [] := Nat.digits_ne_nil_iff_ne_zero.mpr hn.ne'
    rw [← List.dropLast_append_getLast hne, List.reverse_append, List.reverse_singleton,
      List.singleton_append, List.takeWhile_cons]
    simp [Nat.getLast_digit_ne_zero b hn.ne']

end Radix
