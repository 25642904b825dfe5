import BlockstackCore.Library.UndoLog

/-!
# Nested write logs

The specification of a store with nested transactions: one write log per open
context, innermost first. A write goes to the innermost log; committing a
context appends its log to the enclosing one, or hands it to the store when it
was the outermost; rolling back drops it. A read sees the newest write in all
open logs taken oldest first.

`run_above` and `rollback_matching` say that whatever runs inside a context
leaves the contexts around it untouched, so the rollback that closes it gives
back exactly the logs there were before it opened. A step is any function of
the frames that `IsStep` admits, so that a caller whose calls touch the
frames only sometimes can still run them here.
-/

namespace NestedLog

open UndoLog

variable {K V : Type}

/-- The write log of each open context, innermost first. -/
abbrev Frames (K V : Type) := List (List (K × V))

/-- Every live write, oldest first. -/
def log : Frames K V → List (K × V)
  | [] => []
  | f :: fs => log fs ++ f

def nest (fs : Frames K V) : Frames K V := [] :: fs

def write (k : K) (v : V) : Frames K V → Frames K V
  | [] => []
  | f :: fs => (f ++ [(k, v)]) :: fs

/-- Close the innermost context, keeping its writes; the writes of the outermost
one leave the frames for the store. -/
def commit : Frames K V → Frames K V × Option (List (K × V))
  | [] => ([], none)
  | [f] => ([], some f)
  | f :: g :: fs => ((g ++ f) :: fs, none)

def rollback : Frames K V → Frames K V
  | [] => []
  | _ :: fs => fs

section Reads

variable [BEq K]

/-- The newest live write to `k`. -/
def read (fs : Frames K V) (k : K) : Option V := lastWrite (log fs) k

end Reads

@[simp] theorem log_nil : log ([] : Frames K V) = [] := rfl

@[simp] theorem log_cons (f : List (K × V)) (fs : Frames K V) : log (f :: fs) = log fs ++ f := rfl

@[simp] theorem log_nest (fs : Frames K V) : log (nest fs) = log fs := by
  simp [nest]

theorem log_write (k : K) (v : V) (f : List (K × V)) (fs : Frames K V) :
    log (write k v (f :: fs)) = log (f :: fs) ++ [(k, v)] := by
  simp [write]

@[simp] theorem length_nest (fs : Frames K V) : (nest fs).length = fs.length + 1 := rfl

@[simp] theorem length_write (k : K) (v : V) (fs : Frames K V) :
    (write k v fs).length = fs.length := by
  cases fs <;> rfl

theorem length_commit (fs : Frames K V) : (commit fs).1.length = fs.length - 1 := by
  match fs with
  | [] => rfl
  | [_] => rfl
  | _ :: _ :: _ => simp [commit]

@[simp] theorem length_rollback (fs : Frames K V) : (rollback fs).length = fs.length - 1 := by
  cases fs <;> rfl

/-- What one call can do to the frames: nothing, or one of the operations. -/
inductive IsStep : (Frames K V → Frames K V) → Prop
  | skip : IsStep id
  | nest : IsStep nest
  | write (k : K) (v : V) : IsStep (write k v)
  | commit : IsStep fun fs => (commit fs).1
  | rollback : IsStep rollback

/-- Every state of a run of steps stays deeper than `d` open contexts. -/
def Above (d : Nat) : List (Frames K V → Frames K V) → Frames K V → Prop
  | [], _ => True
  | g :: gs, fs => d < (g fs).length ∧ Above d gs (g fs)

/-- A run of steps, first step first. -/
def run : List (Frames K V → Frames K V) → Frames K V → Frames K V
  | [], fs => fs
  | g :: gs, fs => run gs (g fs)

/-- A step that leaves more than `outer.length` contexts open changes only the
contexts above `outer`. -/
theorem step_above {g : Frames K V → Frames K V} (hg : IsStep g) {X : Frames K V}
    (hX : X ≠ []) (outer : Frames K V) (h : outer.length < (g (X ++ outer)).length) :
    ∃ X', X' ≠ [] ∧ g (X ++ outer) = X' ++ outer := by
  obtain ⟨f, X, rfl⟩ : ∃ f X', X = f :: X' := by
    cases X with
    | nil => exact absurd rfl hX
    | cons f X' => exact ⟨f, X', rfl⟩
  cases hg with
  | skip => exact ⟨f :: X, by simp, rfl⟩
  | nest => exact ⟨[] :: f :: X, by simp, rfl⟩
  | write k v => exact ⟨(f ++ [(k, v)]) :: X, by simp, rfl⟩
  | commit =>
    cases X with
    | nil => cases outer <;> simp [commit] at h
    | cons g X => exact ⟨(g ++ f) :: X, by simp, rfl⟩
  | rollback =>
    cases X with
    | nil => simp [rollback] at h
    | cons g X => exact ⟨g :: X, by simp, rfl⟩

theorem run_above {gs : List (Frames K V → Frames K V)} (hgs : ∀ g ∈ gs, IsStep g)
    {X : Frames K V} (hX : X ≠ []) (outer : Frames K V) (h : Above outer.length gs (X ++ outer)) :
    ∃ X', X' ≠ [] ∧ run gs (X ++ outer) = X' ++ outer := by
  induction gs generalizing X with
  | nil => exact ⟨X, hX, rfl⟩
  | cons g gs ih =>
    obtain ⟨hlen, hrest⟩ := h
    obtain ⟨X', hX', hstep⟩ := step_above (hgs g (by simp)) hX outer hlen
    rw [hstep] at hrest
    simp only [run, hstep]
    exact ih (fun g' hg' => hgs g' (by simp [hg'])) hX' hrest

@[simp] theorem run_append (gs gs' : List (Frames K V → Frames K V)) (fs : Frames K V) :
    run (gs ++ gs') fs = run gs' (run gs fs) := by
  induction gs generalizing fs with
  | nil => rfl
  | cons g gs ih => exact ih (g fs)

/-- **The matching rollback restores.** Steps that never close the context
opened by `nest` leave it the only context above `outer`; rolling it back then
gives `outer` again. -/
theorem rollback_matching {gs : List (Frames K V → Frames K V)} (hgs : ∀ g ∈ gs, IsStep g)
    (outer : Frames K V) (habove : Above outer.length gs (nest outer))
    (hdepth : (run gs (nest outer)).length = outer.length + 1) :
    rollback (run gs (nest outer)) = outer := by
  obtain ⟨X', hX', hrun⟩ := run_above hgs (X := [[]]) (by simp) outer habove
  change run gs ([[]] ++ outer) = X' ++ outer at hrun
  have hnest : nest outer = [[]] ++ outer := rfl
  rw [hnest, hrun] at hdepth ⊢
  rw [List.length_append] at hdepth
  obtain ⟨f, rfl⟩ : ∃ f, X' = [f] := List.length_eq_one_iff.mp (by omega)
  rfl

/-- Applying writes oldest first leaves each key at its newest write. -/
theorem apply_log [BEq K] [LawfulBEq K] [Hashable K] (l : List (K × V)) (m : Std.HashMap K V)
    (k : K) :
    (l.foldl (fun m e => m.insert e.1 e.2) m)[k]? = (lastWrite l k).or m[k]? := by
  induction l generalizing m with
  | nil => simp [lastWrite]
  | cons e l ih =>
    obtain ⟨k', v⟩ := e
    rw [List.foldl_cons, ih]
    cases hk : k' == k
    · have hl : lastWrite ((k', v) :: l) k = lastWrite l k := by
        simp [lastWrite, history_cons_of_ne v l hk]
      cases hw : lastWrite l k <;> simp [hl, hw, Std.HashMap.getElem?_insert, hk]
    · have hkk := eq_of_beq hk
      subst hkk
      cases hw : lastWrite l k' with
      | some w =>
        have hl : lastWrite ((k', v) :: l) k' = some w := by
          simp only [lastWrite, history_cons_self, List.getLast?_cons] at hw ⊢
          simp [hw]
        simp [hl]
      | none =>
        have hnil : history l k' = [] := by simpa [lastWrite] using hw
        simp [lastWrite, hnil]

end NestedLog
