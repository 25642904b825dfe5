import Mathlib

/-!
# Outcomes of fallible code that can also panic

A call of a Rust function that returns `Result<T, E>` ends in one of three
ways: a value, an error, or a panic (an `expect`, `unwrap` or `assert!` that
fails). Keeping the panic apart from the error lets a statement say that an
error path is taken where a panic would be a defect.
-/


inductive Outcome (ε α : Type) where
  | ok (a : α)
  | err (e : ε)
  | panic
  deriving DecidableEq, Repr

namespace Outcome

variable {ε α β : Type}

def bind (x : Outcome ε α) (f : α → Outcome ε β) : Outcome ε β :=
  match x with
  | ok a => f a
  | err e => err e
  | panic => panic

instance : Monad (Outcome ε) where
  pure := ok
  bind := bind

/-- Lift a `Result`: the error becomes the outcome's error. -/
def ofExcept : Except ε α → Outcome ε α
  | .ok a => ok a
  | .error e => err e

/-- Rename the error, as `map_err` does. -/
def mapErr {ε' : Type} (f : ε → ε') : Outcome ε α → Outcome ε' α
  | ok a => ok a
  | err e => err (f e)
  | panic => panic

/-- An `expect`: `none` panics. -/
def expect : Option α → Outcome ε α
  | some a => ok a
  | none => panic

/-- `Result::expect`: an error panics. -/
def expectOk {ε' : Type} : Outcome ε α → Outcome ε' α
  | ok a => ok a
  | _ => panic

/-- The value, in code that can only panic: an error or a panic is `none`. -/
def toOption : Outcome ε α → Option α
  | ok a => some a
  | _ => none

/-- An `Option` whose `None` is the error `e`, as `ok_or` makes it. -/
def ofOption (e : ε) : Option α → Outcome ε α
  | some a => ok a
  | none => err e

@[simp] theorem pure_eq (a : α) : (pure a : Outcome ε α) = ok a := rfl

@[simp] theorem ok_bind (a : α) (f : α → Outcome ε β) : (ok a >>= f) = f a := rfl

@[simp] theorem err_bind (e : ε) (f : α → Outcome ε β) : (err e >>= f) = err e := rfl

@[simp] theorem panic_bind (f : α → Outcome ε β) : (panic >>= f) = panic := rfl

theorem bind_eq_ok {x : Outcome ε α} {f : α → Outcome ε β} {b : β} :
    (x >>= f) = ok b ↔ ∃ a, x = ok a ∧ f a = ok b := by
  cases x <;> simp

theorem bind_eq_err {x : Outcome ε α} {f : α → Outcome ε β} {e : ε} :
    (x >>= f) = err e ↔ x = err e ∨ ∃ a, x = ok a ∧ f a = err e := by
  cases x <;> simp

@[simp] theorem ofExcept_ok (a : α) : (ofExcept (.ok a) : Outcome ε α) = ok a := rfl

@[simp] theorem ofExcept_error (e : ε) : (ofExcept (.error e) : Outcome ε α) = err e := rfl

@[simp] theorem mapErr_ok {ε' : Type} (f : ε → ε') (a : α) : mapErr f (ok a) = ok a := rfl

@[simp] theorem mapErr_err {ε' : Type} (f : ε → ε') (e : ε) :
    (mapErr f (err e) : Outcome ε' α) = err (f e) := rfl

@[simp] theorem mapErr_panic {ε' : Type} (f : ε → ε') : (mapErr f panic : Outcome ε' α) = panic := rfl

@[simp] theorem expect_some (a : α) : (expect (some a) : Outcome ε α) = ok a := rfl

@[simp] theorem expect_none : (expect none : Outcome ε α) = panic := rfl

@[simp] theorem mapErr_eq_ok {ε' : Type} {f : ε → ε'} {x : Outcome ε α} {a : α} :
    mapErr f x = ok a ↔ x = ok a := by
  cases x <;> simp [mapErr]

@[simp] theorem expectOk_eq_ok {ε' : Type} {x : Outcome ε α} {a : α} :
    (expectOk x : Outcome ε' α) = ok a ↔ x = ok a := by
  cases x <;> simp [expectOk]

@[simp] theorem ofOption_some (e : ε) (a : α) : ofOption e (some a) = ok a := rfl

@[simp] theorem ofOption_none (e : ε) : (ofOption e none : Outcome ε α) = err e := rfl

@[simp] theorem ofOption_eq_ok {e : ε} {o : Option α} {a : α} : ofOption e o = ok a ↔ o = some a := by
  cases o <;> simp

/-- What `x` can end in: a value that satisfies `p` or an error that
satisfies `q`; a panic is not constrained. -/
def Ends (p : α → Prop) (q : ε → Prop) : Outcome ε α → Prop
  | ok a => p a
  | err e => q e
  | panic => True

namespace Ends

variable {p : β → Prop} {q : ε → Prop}

theorem of_ok {a : β} (h : p a) : Ends p q (ok a) := h

theorem of_err {e : ε} (h : q e) : Ends p q (err e : Outcome ε β) := h

/-- The rule for a bind: what the first part returns is what the second
part starts from. -/
theorem bind {p' : α → Prop} {x : Outcome ε α} {f : α → Outcome ε β} (hx : Ends p' q x)
    (hf : ∀ a, p' a → Ends p q (f a)) : Ends p q (x >>= f) := by
  cases x with
  | ok a => exact hf a hx
  | err e => exact hx
  | panic => trivial

theorem eq_err {x : Outcome ε β} {e : ε} (hx : Ends p q x) (h : x = err e) : q e := by
  subst h
  exact hx

theorem eq_ok {x : Outcome ε β} {b : β} (hx : Ends p q x) (h : x = ok b) : p b := by
  subst h
  exact hx

end Ends

/-- `for _ in 0..n { items.push(step(r)?) }`: run a reading step `n` times,
collecting what each read, and stop at the first error or panic. -/
def repeatN {σ : Type} (step : σ → Outcome ε (α × σ)) : Nat → σ → Outcome ε (List α × σ)
  | 0, s => ok ([], s)
  | n + 1, s => do
    let (a, s) ← step s
    let (as, s) ← repeatN step n s
    pure (a :: as, s)

section Repeat

variable {σ : Type} {step : σ → Outcome ε (α × σ)}

@[simp] theorem repeatN_zero (s : σ) : repeatN step 0 s = ok ([], s) := rfl

theorem repeatN_succ (n : Nat) (s : σ) :
    repeatN step (n + 1) s = (step s >>= fun (a, s) =>
      repeatN step n s >>= fun (as, s) => pure (a :: as, s)) := rfl

/-- Every item of a run that succeeds was read by one step that succeeded. -/
theorem repeatN_ok {n : Nat} {s s' : σ} {as : List α} (h : repeatN step n s = ok (as, s')) :
    ∀ a ∈ as, ∃ t t', step t = ok (a, t') := by
  induction n generalizing s s' as with
  | zero =>
    simp only [repeatN_zero, ok.injEq, Prod.mk.injEq] at h
    obtain ⟨rfl, -⟩ := h
    simp
  | succ n ih =>
    rw [repeatN_succ] at h
    obtain ⟨⟨a, s₁⟩, hstep, h⟩ := bind_eq_ok.mp h
    obtain ⟨⟨as', s₂⟩, hrest, h⟩ := bind_eq_ok.mp h
    simp only [pure_eq, ok.injEq, Prod.mk.injEq] at h
    obtain ⟨rfl, -⟩ := h
    intro b hb
    rcases List.mem_cons.mp hb with rfl | hb
    · exact ⟨s, s₁, hstep⟩
    · exact ih hrest b hb

end Repeat

end Outcome

/-! `Except` needs the same three rewriting rules; they hold by definition. -/

namespace Except

variable {ε α β : Type}

@[simp] theorem ok_bind (a : α) (f : α → Except ε β) : (Except.ok a >>= f) = f a := rfl

@[simp] theorem error_bind (e : ε) (f : α → Except ε β) : (Except.error e >>= f) = .error e := rfl

@[simp] theorem pure_eq_ok (a : α) : (pure a : Except ε α) = .ok a := rfl

theorem bind_eq_ok' {x : Except ε α} {f : α → Except ε β} {b : β} :
    (x >>= f) = .ok b ↔ ∃ a, x = .ok a ∧ f a = .ok b := by
  cases x <;> simp

theorem map_eq_ok {x : Except ε α} {f : α → β} {b : β} :
    x.map f = .ok b ↔ ∃ a, x = .ok a ∧ f a = b := by
  cases x <;> simp [Except.map]

end Except
