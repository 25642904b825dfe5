import Mathlib

/-!
# Cycles, well-founded nodes and post-orders of a relation

A directed graph is its edge relation `r`. It has a cycle when some node
reaches itself (`HasCycle`). A node is well-founded when every path out of
it ends: `Acc (Function.swap r)`, accessibility for "is a successor of". No
node on a cycle is well-founded (`not_acc_of_cycle`).

A list is a post-order when every element's successors stand before it
(`PostOrdered`); appending a node whose successors are all listed keeps it
one (`PostOrdered.concat`).
-/

namespace Digraph

open Relation

variable {α : Type} {r : α → α → Prop}

/-- Some node reaches itself, by one edge or more. -/
def HasCycle (r : α → α → Prop) : Prop := ∃ v, TransGen r v v

/-- Every element's successors come before it in the list. -/
def PostOrdered (r : α → α → Prop) (l : List α) : Prop :=
  ∀ l₁ x l₂, l = l₁ ++ x :: l₂ → ∀ y, r x y → y ∈ l₁

theorem PostOrdered.nil : PostOrdered r [] := by
  intro l₁ x l₂ h
  simp at h

theorem PostOrdered.concat {l : List α} {x : α} (hl : PostOrdered r l) (hx : ∀ y, r x y → y ∈ l) :
    PostOrdered r (l ++ [x]) := by
  intro l₁ z l₂ h y hzy
  rcases List.eq_nil_or_concat l₂ with rfl | ⟨l₂', w, rfl⟩
  · -- `z` is the appended node
    obtain ⟨rfl, hxz⟩ := List.append_inj' h rfl
    rw [← List.singleton_inj.mp hxz] at hzy
    exact hx y hzy
  · -- `z` was already in `l`
    rw [List.concat_eq_append, ← List.cons_append, ← List.append_assoc] at h
    obtain ⟨hl', -⟩ := List.append_inj' h rfl
    exact hl l₁ z l₂' hl' y hzy

/-- A post-order stays one without its last element, which comes after its
successors. -/
theorem PostOrdered.of_concat {l : List α} {x : α} (h : PostOrdered r (l ++ [x])) :
    PostOrdered r l ∧ ∀ y, r x y → y ∈ l := by
  refine ⟨fun l₁ z l₂ hl y hzy => h l₁ z (l₂ ++ [x]) (by rw [hl]; simp) y hzy, fun y hxy => h l x [] rfl y hxy⟩

/-- A node on a cycle has an endless path out of it. -/
theorem not_acc_of_cycle {v : α} (h : TransGen r v v) : ¬Acc (Function.swap r) v := by
  -- from a well-founded node, no path leads out and back again
  have roundTrip : ∀ a, Acc (Function.swap r) a → ∀ c, TransGen r a c → TransGen r c a → False := by
    intro a ha
    induction ha with
    | intro a _ ih =>
      intro c hac hca
      obtain ⟨y, hay, hyc⟩ := TransGen.head'_iff.mp hac
      exact ih y hay a (TransGen.trans_right hyc hca) (TransGen.single hay)
  exact fun hacc => roundTrip v hacc v h h

end Digraph
