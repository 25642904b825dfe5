import Mathlib

/-!
# Folding keyed updates into a store

A loop that applies one update per entry of a list of `(key, value)` pairs to
a store. The store is read by `get` and updated by `upd`, and an update at one
key changes the reading at that key only, by `merge` (`GetUpd`). When the keys
of the list are distinct, the store after the loop reads, at each key, the
merge of the old reading with that key's value, or the old reading if the key
is not in the list.
-/

namespace KeyedFold

variable {σ κ β γ : Type}

/-- The law an update obeys: at its own key the reading becomes
`merge old v`, elsewhere it stays. -/
def GetUpd [DecidableEq κ] (get : σ → κ → β) (upd : σ → κ → γ → σ) (merge : β → γ → β) : Prop :=
  ∀ s k v k', get (upd s k v) k' = if k = k' then merge (get s k) v else get s k'

/-- The loop: one update per entry, in order. -/
def run (upd : σ → κ → γ → σ) (s : σ) (l : List (κ × γ)) : σ :=
  l.foldl (fun s p => upd s p.1 p.2) s

@[simp] theorem run_cons (upd : σ → κ → γ → σ) (s : σ) (p : κ × γ) (l : List (κ × γ)) :
    run upd s (p :: l) = run upd (upd s p.1 p.2) l := rfl

section

variable [DecidableEq κ] {get : σ → κ → β} {upd : σ → κ → γ → σ} {merge : β → γ → β}

/-- A key the loop never updates reads as before. -/
theorem get_run_of_not_mem (law : GetUpd get upd merge) (l : List (κ × γ)) (s : σ) {k : κ}
    (h : k ∉ l.map Prod.fst) : get (run upd s l) k = get s k := by
  induction l generalizing s with
  | nil => rfl
  | cons p l ih =>
    simp only [List.map_cons, List.mem_cons, not_or] at h
    rw [run_cons, ih _ h.2, law, if_neg (Ne.symm h.1)]

/-- A key the loop updates once reads as the merge of its old reading with
the update's value. -/
theorem get_run_of_mem (law : GetUpd get upd merge) (l : List (κ × γ)) (hkeys : (l.map Prod.fst).Nodup)
    (s : σ) {k : κ} {v : γ} (hmem : (k, v) ∈ l) : get (run upd s l) k = merge (get s k) v := by
  induction l generalizing s with
  | nil => cases hmem
  | cons p l ih =>
    rw [List.map_cons, List.nodup_cons] at hkeys
    rw [run_cons]
    rcases List.mem_cons.mp hmem with rfl | hmem
    · -- the entry is this one: no later entry has its key
      rw [get_run_of_not_mem law l _ hkeys.1, law, if_pos rfl]
    · have hne : p.1 ≠ k := fun heq => hkeys.1 (heq ▸ List.mem_map_of_mem (f := Prod.fst) hmem)
      rw [ih hkeys.2 _ hmem, law, if_neg hne]

end

end KeyedFold
