import Mathlib

/-!
# Sums over all keys under point updates

A store written finitely often holds a finitely supported function from keys to
amounts. The sum over all keys (`finsum`) then changes under a write by the
difference between the new amount and the old one. The statements are additive,
so that they hold in every additive commutative monoid, `ℕ` included.
-/

namespace FinsumUpdate

variable {α M : Type} [DecidableEq α] [AddCommMonoid M]

theorem support_update_finite {f : α → M} (hf : (Function.support f).Finite) (a : α) (v : M) :
    (Function.support (Function.update f a v)).Finite := by
  apply (hf.insert a).subset
  intro x hx
  by_cases h : x = a
  · exact h ▸ Set.mem_insert x _
  · apply Set.mem_insert_of_mem
    rwa [Function.mem_support, Function.update_of_ne h] at hx

/-- A write of `v` at `a` adds `v` to the sum and takes away the old `f a`. -/
theorem finsum_update_add {f : α → M} (hf : (Function.support f).Finite) (a : α) (v : M) :
    (∑ᶠ x, Function.update f a v x) + f a = (∑ᶠ x, f x) + v := by
  let s : Finset α := insert a hf.toFinset
  have ha : a ∈ s := Finset.mem_insert_self a _
  have hs : Function.support f ⊆ s := fun x hx =>
    Finset.mem_insert_of_mem (hf.mem_toFinset.mpr hx)
  have hs' : Function.support (Function.update f a v) ⊆ s := by
    intro x hx
    by_cases h : x = a
    · exact h ▸ ha
    · exact hs (by rwa [Function.mem_support, Function.update_of_ne h] at hx)
  rw [finsum_eq_sum_of_support_subset _ hs', finsum_eq_sum_of_support_subset _ hs,
    Finset.sum_update_of_mem ha, ← Finset.add_sum_erase s f ha, Finset.sdiff_singleton_eq_erase,
    add_comm v, add_comm (f a), add_assoc, add_assoc, add_comm v]

section Nat

variable {f : α → ℕ}

/-- Adding `a` at one key adds `a` to the sum. -/
theorem finsum_update_add_self (hf : (Function.support f).Finite) (x : α) (a : ℕ) :
    ∑ᶠ y, Function.update f x (f x + a) y = (∑ᶠ y, f y) + a := by
  have h := finsum_update_add hf x (f x + a)
  omega

/-- Moving `a` from one key, which holds it, to another keeps the sum. -/
theorem finsum_move (hf : (Function.support f).Finite) {x y : α} (hxy : x ≠ y) {a : ℕ}
    (ha : a ≤ f x) :
    ∑ᶠ z, Function.update (Function.update f x (f x - a)) y (f y + a) z = ∑ᶠ z, f z := by
  have hf₁ := support_update_finite hf x (f x - a)
  have hfirst := finsum_update_add hf x (f x - a)
  have hsecond := finsum_update_add hf₁ y (f y + a)
  rw [Function.update_of_ne (Ne.symm hxy)] at hsecond
  omega

end Nat

end FinsumUpdate
