import Mathlib

/-!
# Ordered maps as sorted association lists

A `BTreeMap<K, V>` is modelled by its entries in key order. `insert`
replaces the value of a key that is there and keeps the list sorted; `get`
is lookup; iterating the map is walking the list. `Sorted` is the
representation invariant; the operations need it only for their ordering
lemmas.
-/

namespace BTreeMap

variable {K V : Type} [LinearOrder K]

def insert (k : K) (v : V) : List (K × V) → List (K × V)
  | [] => [(k, v)]
  | (k', v') :: m =>
    if k < k' then (k, v) :: (k', v') :: m
    else if k = k' then (k, v) :: m
    else (k', v') :: insert k v m

def get (k : K) : List (K × V) → Option V
  | [] => none
  | (k', v') :: m => if k = k' then some v' else get k m

def containsKey (k : K) (m : List (K × V)) : Bool := (get k m).isSome

/-- Keys strictly increase along the list. -/
def Sorted (m : List (K × V)) : Prop := m.Pairwise fun a b => a.1 < b.1

theorem mem_insert {k : K} {v : V} {p : K × V} {m : List (K × V)} (h : p ∈ insert k v m) :
    p = (k, v) ∨ p ∈ m := by
  induction m with
  | nil => simpa [insert] using h
  | cons e m ih =>
    obtain ⟨k', v'⟩ := e
    simp only [insert] at h
    split_ifs at h with hlt heq
    · simpa using h
    · rcases List.mem_cons.mp h with h | h
      · exact .inl h
      · exact .inr (List.mem_cons_of_mem _ h)
    · rcases List.mem_cons.mp h with h | h
      · exact .inr (h ▸ List.mem_cons_self)
      · rcases ih h with h | h
        · exact .inl h
        · exact .inr (List.mem_cons_of_mem _ h)

end BTreeMap
