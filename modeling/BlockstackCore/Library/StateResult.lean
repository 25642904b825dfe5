import Mathlib

/-!
# Stateful computations that fail with their state, or panic

A function that works on a mutable context and returns a `Result` ends in one
of three ways: a value, or an error, each with the context as it left it (an
early return with `?` does not undo what came before it), or a panic.
`StateResult σ ε α` is such a computation on a state `σ`: `none` is the panic.

`Keeps R clean x` says that every run of `x` that returns relates its first
and last states by `R`, unless it fails with an error that is not `clean`.
With `R` reflexive and transitive it is kept by `pure`, `throw` and `bind`,
so a property of a whole program follows from one per primitive. `attempt`
catches an error as a value; what it keeps is what `x` keeps on every run.
-/

/-- A computation on a state that returns a value or an error together with
the state it reached, or panics (`none`). -/
def StateResult (σ ε α : Type) : Type := σ → Option (Except ε α × σ)

namespace StateResult

variable {σ ε α β : Type}

def pure (a : α) : StateResult σ ε α := fun s => some (.ok a, s)

def bind (x : StateResult σ ε α) (f : α → StateResult σ ε β) : StateResult σ ε β := fun s =>
  match x s with
  | none => none
  | some (.error e, s') => some (.error e, s')
  | some (.ok a, s') => f a s'

instance : Monad (StateResult σ ε) where
  pure := pure
  bind := bind

def throw (e : ε) : StateResult σ ε α := fun s => some (.error e, s)

def ofExcept (r : Except ε α) : StateResult σ ε α := fun s => some (r, s)

/-- Run `x` and return its outcome, error or not, as a value. -/
def attempt (x : StateResult σ ε α) : StateResult σ ε (Except ε α) := fun s =>
  (x s).map fun (r, s') => (.ok r, s')

def get : StateResult σ ε σ := fun s => some (.ok s, s)

def panic : StateResult σ ε α := fun _ => none

/-- An `expect` or `unwrap`: `none` panics. -/
def expect : Option α → StateResult σ ε α
  | some a => pure a
  | none => panic

@[simp] theorem pure_apply (a : α) (s : σ) : (Pure.pure a : StateResult σ ε α) s = some (.ok a, s) := rfl

@[simp] theorem get_apply (s : σ) : (get : StateResult σ ε σ) s = some (.ok s, s) := rfl

theorem bind_of_ok {x : StateResult σ ε α} {f : α → StateResult σ ε β} {s s' : σ} {a : α}
    (h : x s = some (.ok a, s')) : (x >>= f) s = f a s' := by
  change bind x f s = _
  unfold bind
  rw [h]

/-- What a run of `x >>= f` that returns went through: `x` failed, or `x`
returned a value and `f` of it ran on. -/
theorem bind_eq_some {x : StateResult σ ε α} {f : α → StateResult σ ε β} {s s'' : σ} {r : Except ε β}
    (h : (x >>= f) s = some (r, s'')) :
    (∃ e, x s = some (.error e, s'') ∧ r = .error e) ∨ ∃ a s', x s = some (.ok a, s') ∧ f a s' = some (r, s'') := by
  change bind x f s = _ at h
  unfold bind at h
  split at h
  · cases h
  · rename_i e s' hx
    cases h
    exact .inl ⟨e, hx, rfl⟩
  · rename_i a s' hx
    exact .inr ⟨a, s', hx, h⟩

theorem attempt_eq_some {x : StateResult σ ε α} {s s' : σ} {r : Except ε (Except ε α)}
    (h : attempt x s = some (r, s')) : ∃ r', x s = some (r', s') ∧ r = .ok r' := by
  unfold attempt at h
  cases hx : x s with
  | none => rw [hx] at h; cases h
  | some p =>
    rw [hx] at h
    cases h
    exact ⟨p.1, rfl, rfl⟩

theorem expect_eq_some {o : Option α} {s s' : σ} {r : Except ε α} (h : (expect o : StateResult σ ε α) s = some (r, s')) :
    ∃ a, o = some a ∧ r = .ok a ∧ s' = s := by
  cases o with
  | none => cases h
  | some a =>
    cases h
    exact ⟨a, rfl, rfl, rfl⟩

/-- Every run of `x` that returns, with a `clean` error or none, relates its
first and last states by `R`. -/
def Keeps (R : σ → σ → Prop) (clean : ε → Prop) (x : StateResult σ ε α) : Prop :=
  ∀ s r s', x s = some (r, s') → (∀ e, r = .error e → clean e) → R s s'

section Keeps

variable {R : σ → σ → Prop} {clean : ε → Prop}

theorem Keeps.pure (hrefl : ∀ s, R s s) (a : α) : Keeps R clean (Pure.pure a : StateResult σ ε α) := by
  intro s r s' h _
  cases h
  exact hrefl s

theorem Keeps.throw (hrefl : ∀ s, R s s) (e : ε) : Keeps R clean (throw e : StateResult σ ε α) := by
  intro s r s' h _
  cases h
  exact hrefl s

theorem Keeps.get (hrefl : ∀ s, R s s) : Keeps R clean (get : StateResult σ ε σ) := by
  intro s r s' h _
  cases h
  exact hrefl s

theorem Keeps.panic : Keeps R clean (panic : StateResult σ ε α) := by
  intro s r s' h
  cases h

theorem Keeps.expect (hrefl : ∀ s, R s s) (o : Option α) : Keeps R clean (expect o : StateResult σ ε α) := by
  cases o with
  | none => exact Keeps.panic
  | some a => exact Keeps.pure hrefl a

/-- A sequence keeps what both halves keep: the error of a failed first half
is the error of the whole. -/
theorem Keeps.bind (htrans : ∀ ⦃s₁ s₂ s₃⦄, R s₁ s₂ → R s₂ s₃ → R s₁ s₃) {x : StateResult σ ε α}
    {f : α → StateResult σ ε β} (hx : Keeps R clean x) (hf : ∀ a, Keeps R clean (f a)) :
    Keeps R clean (x >>= f) := by
  intro s r s'' h hclean
  rcases bind_eq_some h with ⟨e, hxe, rfl⟩ | ⟨a, s', hxa, hfa⟩
  · exact hx s _ s'' hxe fun e' he' => hclean e' (by cases he'; rfl)
  · have hxs : R s s' := hx s _ s' hxa fun e he => by cases he
    exact htrans hxs (hf a s' r s'' hfa hclean)

/-- A caught error is a value, so the catch keeps only what every run of `x`
keeps. -/
theorem Keeps.attempt {x : StateResult σ ε α} (hx : Keeps R (fun _ => True) x) :
    Keeps R clean (attempt x) := by
  intro s r s' h _
  obtain ⟨r', hxr, -⟩ := attempt_eq_some h
  exact hx s r' s' hxr fun _ _ => trivial

theorem Keeps.ite {c : Prop} [Decidable c] {x y : StateResult σ ε α} (hx : Keeps R clean x)
    (hy : Keeps R clean y) : Keeps R clean (if c then x else y) := by
  split
  · exact hx
  · exact hy

theorem Keeps.mono {R' : σ → σ → Prop} {x : StateResult σ ε α} (hx : Keeps R clean x)
    (hR : ∀ s s', R s s' → R' s s') : Keeps R' clean x :=
  fun s r s' h hclean => hR s s' (hx s r s' h hclean)

section Loops

variable (hrefl : ∀ s, R s s) (htrans : ∀ ⦃s₁ s₂ s₃⦄, R s₁ s₂ → R s₂ s₃ → R s₁ s₃)
include hrefl htrans

/-- A fold whose every step keeps `R` keeps it. -/
theorem Keeps.foldlM {f : β → α → StateResult σ ε β} (hf : ∀ b a, Keeps R clean (f b a)) :
    ∀ (l : List α) (b : β), Keeps R clean (l.foldlM f b)
  | [], b => Keeps.pure hrefl b
  | a :: l, b => by
    rw [List.foldlM_cons]
    exact Keeps.bind htrans (hf b a) fun b' => Keeps.foldlM hf l b'

/-- A `for` loop whose every body keeps `R` keeps it. -/
theorem Keeps.forIn {f : α → β → StateResult σ ε (ForInStep β)} (hf : ∀ a b, Keeps R clean (f a b)) :
    ∀ (l : List α) (b : β), Keeps R clean (forIn l b f)
  | [], b => Keeps.pure hrefl b
  | a :: l, b => by
    rw [List.forIn_cons]
    refine Keeps.bind htrans (hf a b) fun step => ?_
    cases step with
    | done b' => exact Keeps.pure hrefl b'
    | yield b' => exact Keeps.forIn hf l b'

end Loops

end Keeps

end StateResult
