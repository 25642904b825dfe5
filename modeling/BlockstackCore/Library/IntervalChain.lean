import Mathlib

/-!
# Abutting half-open intervals

A list of items, each standing for the half-open interval `[lo a, hi a)`, is a
chain from `s` when the first interval starts at `s` and every later one starts
where the one before it ends. A search for the first interval holding `x`
(`List.findIdx?` with the membership test) then finds one for every `x` between
`s` and the end of the chain, and finds none for an `x` that no interval reaches.
Neither needs the intervals to be non-empty: an empty interval is passed over.
-/

namespace IntervalChain

variable {α : Type} (lo hi : α → Nat)

/-- Each interval starts where the one before it ends, the first at `s`. -/
def Abutting : Nat → List α → Prop
  | _, [] => True
  | s, a :: as => lo a = s ∧ Abutting (hi a) as

/-- Where the chain ends: the end of its last interval, or `s` if it is empty. -/
def chainEnd : Nat → List α → Nat
  | s, [] => s
  | _, a :: as => chainEnd (hi a) as

/-- The membership test of the search. -/
def holds (x : Nat) (a : α) : Bool := decide (lo a ≤ x ∧ x < hi a)

@[simp] theorem chainEnd_nil (s : Nat) : chainEnd hi s ([] : List α) = s := rfl

@[simp] theorem chainEnd_cons (s : Nat) (a : α) (as : List α) :
    chainEnd hi s (a :: as) = chainEnd hi (hi a) as := rfl

/-- Every point from the start of a chain to its end lies in some interval of
it, and the search stops at the first such interval. -/
theorem findIdx_holds_of_abutting {s x : Nat} {as : List α} (hchain : Abutting lo hi s as)
    (hs : s ≤ x) (hx : x < chainEnd hi s as) :
    ∃ i, ∃ h : i < as.length, as.findIdx? (holds lo hi x) = some i ∧
      lo as[i] ≤ x ∧ x < hi as[i] := by
  induction as generalizing s with
  | nil => simp only [chainEnd_nil] at hx; omega
  | cons a as ih =>
    obtain ⟨hlo, hrest⟩ := hchain
    by_cases ha : x < hi a
    -- the first interval holds `x`: it starts at `s ≤ x`
    · have hhold : holds lo hi x a = true := by simp [holds, hlo, hs, ha]
      exact ⟨0, by simp, by simp [List.findIdx?_cons, hhold], by simp [hlo, hs], ha⟩
    -- otherwise the rest of the chain starts at `hi a ≤ x`
    · have hhold : holds lo hi x a = false := by simp [holds, ha]
      obtain ⟨i, hi', hfind, hlo', hhi'⟩ := ih hrest (by omega) hx
      refine ⟨i + 1, by simp [hi'], ?_, hlo', hhi'⟩
      simp [List.findIdx?_cons, hhold, hfind]

end IntervalChain
