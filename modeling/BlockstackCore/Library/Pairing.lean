import Mathlib

/-!
# Rows of pairs

One level of a binary hash tree: `pairMap f` combines the consecutive pairs
of a row and drops a last element without a partner, and `padEven` repeats
the last element of a row of odd length so that none is dropped.

With `f` injective in both arguments, `pairMap f` is injective on rows of
even length. A row without duplicates stays without them one level up
(`nodup_pairMap_padEven`), and two such rows with the same level above are
equal (`pairMap_padEven_inj`): the repeated element that `padEven` adds is
the only duplicate, so it shows where the padding was.
-/

namespace Pairing

variable {α β : Type}

/-- The results of `f` on consecutive pairs; an odd last element is dropped. -/
def pairMap (f : α → α → β) : List α → List β
  | a :: b :: rest => f a b :: pairMap f rest
  | _ => []

/-- A row of odd length with its last element repeated. -/
def padEven (row : List α) : List α :=
  if row.length % 2 ≠ 0 then row ++ row.getLast?.toList else row

section PadEven

variable {l l' : List α}

theorem padEven_of_even (h : l.length % 2 = 0) : padEven l = l := by
  simp [padEven, h]

/-- A row of odd length ends in an element that padding writes twice. -/
theorem padEven_of_odd (h : l.length % 2 = 1) : ∃ l₀ x, l = l₀ ++ [x] ∧ padEven l = l₀ ++ [x, x] := by
  obtain ⟨l₀, x, rfl⟩ : ∃ l₀ x, l = l₀ ++ [x] := by
    rcases List.eq_nil_or_concat l with rfl | ⟨l₀, x, rfl⟩
    · simp at h
    · exact ⟨l₀, x, by simp⟩
  refine ⟨l₀, x, rfl, ?_⟩
  simp only [List.length_append, List.length_singleton] at h
  simp [padEven, h]

@[simp] theorem mem_padEven {x : α} : x ∈ padEven l ↔ x ∈ l := by
  unfold padEven
  split
  · constructor
    · intro hx
      rcases List.mem_append.mp hx with hx | hx
      · exact hx
      · exact List.mem_of_getLast? (Option.mem_toList.mp hx)
    · exact fun hx => List.mem_append_left _ hx
  · exact Iff.rfl

theorem length_padEven : (padEven l).length = l.length + l.length % 2 := by
  unfold padEven
  split
  · rename_i hodd
    obtain ⟨x, hx⟩ : ∃ x, l.getLast? = some x :=
      Option.ne_none_iff_exists'.mp (by simpa using List.ne_nil_of_length_pos (by omega))
    simp [hx]
    omega
  · omega

theorem length_padEven_even : (padEven l).length % 2 = 0 := by
  rw [length_padEven]
  omega

/-- Padding leaves rows without duplicates apart: an odd row padded has a
duplicate at its end, which an even row without duplicates does not. -/
theorem padEven_inj (hl : l.Nodup) (hl' : l'.Nodup) (h : padEven l = padEven l') : l = l' := by
  have hpad : ∀ {l l' : List α}, l.length % 2 = 1 → l'.length % 2 = 0 → l'.Nodup →
      padEven l ≠ padEven l' := by
    intro l l' hodd heven hnodup heq
    obtain ⟨l₀, x, -, hpad⟩ := padEven_of_odd hodd
    rw [padEven_of_even heven] at heq
    rw [← heq, hpad] at hnodup
    simp [List.nodup_append] at hnodup
  rcases Nat.mod_two_eq_zero_or_one l.length with hl₀ | hl₀ <;>
    rcases Nat.mod_two_eq_zero_or_one l'.length with hl₀' | hl₀'
  · rwa [padEven_of_even hl₀, padEven_of_even hl₀'] at h
  · exact absurd h.symm (hpad hl₀' hl₀ hl)
  · exact absurd h (hpad hl₀ hl₀' hl')
  · obtain ⟨l₀, x, rfl, hx⟩ := padEven_of_odd hl₀
    obtain ⟨l₀', x', rfl, hx'⟩ := padEven_of_odd hl₀'
    rw [hx, hx'] at h
    obtain ⟨rfl, hxx⟩ := List.append_inj' h rfl
    simp only [List.cons.injEq] at hxx
    rw [hxx.1]

end PadEven

section PairMap

variable {f : α → α → β}

@[simp] theorem pairMap_cons_cons (a b : α) (rest : List α) :
    pairMap f (a :: b :: rest) = f a b :: pairMap f rest := rfl

theorem length_pairMap : ∀ l : List α, (pairMap f l).length = l.length / 2
  | [] => by simp [pairMap]
  | [_] => by simp [pairMap]
  | a :: b :: rest => by
    simp only [pairMap_cons_cons, List.length_cons, length_pairMap rest]
    omega

/-- Every result comes from a pair of the row. -/
theorem exists_of_mem_pairMap {c : β} : ∀ {l : List α}, c ∈ pairMap f l → ∃ a ∈ l, ∃ b ∈ l, c = f a b
  | [], h => by simp [pairMap] at h
  | [_], h => by simp [pairMap] at h
  | a :: b :: rest, h => by
    rcases List.mem_cons.mp h with rfl | h
    · exact ⟨a, by simp, b, by simp, rfl⟩
    · obtain ⟨a', ha', b', hb', rfl⟩ := exists_of_mem_pairMap h
      exact ⟨a', by simp [ha'], b', by simp [hb'], rfl⟩

/-- The pair at positions `2 * j` and `2 * j + 1` has its result in the row above. -/
theorem mem_pairMap {a b : α} : ∀ {l : List α} {j : Nat}, l[2 * j]? = some a → l[2 * j + 1]? = some b →
    f a b ∈ pairMap f l
  | [], _, ha, _ => by simp at ha
  | [_], _, _, hb => by simp at hb
  | a' :: b' :: rest, 0, ha, hb => by
    simp only [Nat.mul_zero, List.getElem?_cons_zero, Option.some.injEq, Nat.zero_add,
      List.getElem?_cons_succ] at ha hb
    subst ha hb
    simp
  | _ :: _ :: rest, j + 1, ha, hb => by
    -- the pair is one of `rest`'s, two positions further on
    have hrest : rest[2 * j]? = some a ∧ rest[2 * j + 1]? = some b := by
      rw [show 2 * (j + 1) = 2 * j + 1 + 1 by omega] at ha
      rw [show 2 * (j + 1) + 1 = 2 * j + 1 + 1 + 1 by omega] at hb
      exact ⟨by simpa using ha, by simpa using hb⟩
    exact List.mem_cons_of_mem _ (mem_pairMap hrest.1 hrest.2)

theorem length_tail_tail_even {a b : α} {l : List α} (h : (a :: b :: l).length % 2 = 0) : l.length % 2 = 0 := by
  simp only [List.length_cons] at h
  omega

/-- Over rows of even length the split into pairs is a bijection, so an
injective `f` makes `pairMap f` injective. -/
theorem pairMap_inj (hf : Function.Injective2 f) :
    ∀ {l l' : List α}, l.length % 2 = 0 → l'.length % 2 = 0 → pairMap f l = pairMap f l' → l = l'
  | [], [], _, _, _ => rfl
  | [], _ :: _ :: _, _, _, h => by simp [pairMap] at h
  | _ :: _ :: _, [], _, _, h => by simp [pairMap] at h
  | [_], _, hl, _, _ => by simp at hl
  | _, [_], _, hl', _ => by simp at hl'
  | a :: b :: rest, a' :: b' :: rest', hl, hl', h => by
    simp only [pairMap_cons_cons, List.cons.injEq] at h
    obtain ⟨rfl, rfl⟩ := hf h.1
    rw [pairMap_inj hf (length_tail_tail_even hl) (length_tail_tail_even hl') h.2]

theorem pairMap_append (l' : List α) : ∀ {l : List α}, l.length % 2 = 0 →
    pairMap f (l ++ l') = pairMap f l ++ pairMap f l'
  | [], _ => by simp [pairMap]
  | [_], hl => by simp at hl
  | a :: b :: rest, hl => by
    simp only [List.cons_append, pairMap_cons_cons, pairMap_append l' (length_tail_tail_even hl)]

theorem nodup_pairMap (hf : Function.Injective2 f) : ∀ {l : List α}, l.Nodup → (pairMap f l).Nodup
  | [], _ => by simp [pairMap]
  | [_], _ => by simp [pairMap]
  | a :: b :: rest, hl => by
    simp only [List.nodup_cons, List.mem_cons, not_or] at hl
    refine List.nodup_cons.mpr ⟨fun hmem => ?_, nodup_pairMap hf hl.2.2⟩
    -- a result equal to `f a b` comes from a pair that starts with `a`
    obtain ⟨a', ha', b', -, hab⟩ := exists_of_mem_pairMap hmem
    exact hl.1.2 ((hf hab).1 ▸ ha')

/-- A row without duplicates, padded, has a level above without duplicates:
the padded pair `(x, x)` starts with the one element no other pair holds. -/
theorem nodup_pairMap_padEven (hf : Function.Injective2 f) {l : List α} (hl : l.Nodup) :
    (pairMap f (padEven l)).Nodup := by
  rcases Nat.mod_two_eq_zero_or_one l.length with heven | hodd
  · rw [padEven_of_even heven]
    exact nodup_pairMap hf hl
  · obtain ⟨l₀, x, rfl, hpad⟩ := padEven_of_odd hodd
    have hl₀ : l₀.length % 2 = 0 := by simp at hodd; omega
    rw [hpad, pairMap_append _ hl₀]
    simp only [List.nodup_append, List.nodup_cons, List.not_mem_nil, not_false_eq_true,
      List.nodup_nil, and_self] at hl
    refine List.nodup_append.mpr ⟨nodup_pairMap hf hl.1, by simp [pairMap], ?_⟩
    intro c hc c' hc' hcc
    simp only [pairMap, List.mem_singleton] at hc'
    obtain ⟨a, ha, b, -, rfl⟩ := exists_of_mem_pairMap hc
    rw [hc'] at hcc
    exact hl.2.2 a ha x (List.mem_singleton_self x) (hf hcc).1

/-- Two rows without duplicates with the same level above are equal. -/
theorem pairMap_padEven_inj (hf : Function.Injective2 f) {l l' : List α} (hl : l.Nodup) (hl' : l'.Nodup)
    (h : pairMap f (padEven l) = pairMap f (padEven l')) : l = l' :=
  padEven_inj hl hl' (pairMap_inj hf length_padEven_even length_padEven_even h)

end PairMap

end Pairing
