import Mathlib

/-!
# Per-key histories beside a write log

A write log lists key/value writes, oldest first. A map from keys to lists can
keep, for every key, the values written to it in order, with a key nothing was
written to absent from the map. `Tracks m log` says that `m` is that map for
`log`; `RevTracks` is the same with every list reversed, the form in which a
log is drained oldest first.

The lemmas say what one write, one undo of the newest write and one drain of
the oldest write do to a tracking map, so that a loop over a log is an
induction that cites them.
-/

namespace UndoLog

variable {K V : Type} [BEq K]

/-- The values written to `k`, oldest first. -/
def history (log : List (K × V)) (k : K) : List V :=
  log.filterMap fun e => if e.1 == k then some e.2 else none

/-- The map entry for `k`: absent when nothing was written to `k`. -/
def entry (log : List (K × V)) (k : K) : Option (List V) :=
  match history log k with
  | [] => none
  | h => some h

/-- The newest value written to `k`. -/
def lastWrite (log : List (K × V)) (k : K) : Option V :=
  (history log k).getLast?

@[simp] theorem history_nil (k : K) : history ([] : List (K × V)) k = [] := rfl

theorem history_append (a b : List (K × V)) (k : K) :
    history (a ++ b) k = history a k ++ history b k := by
  simp [history, List.filterMap_append]

theorem history_cons_of_ne {k k' : K} (v : V) (log : List (K × V)) (h : (k == k') = false) :
    history ((k, v) :: log) k' = history log k' := by
  simp [history, h]

theorem entry_eq_none_iff (log : List (K × V)) (k : K) :
    entry log k = none ↔ history log k = [] := by
  unfold entry
  split <;> simp_all

theorem entry_of_ne_nil {log : List (K × V)} {k : K} (h : history log k ≠ []) :
    entry log k = some (history log k) := by
  unfold entry
  split
  · contradiction
  · rfl

@[simp] theorem entry_nil (k : K) : entry ([] : List (K × V)) k = none := rfl

theorem entry_append_of_ne (log : List (K × V)) {k k' : K} (v : V) (h : (k == k') = false) :
    entry (log ++ [(k, v)]) k' = entry log k' := by
  simp [entry, history_append, history_cons_of_ne v [] h]

theorem entry_cons_of_ne (log : List (K × V)) {k k' : K} (v : V) (h : (k == k') = false) :
    entry ((k, v) :: log) k' = entry log k' := by
  simp [entry, history_cons_of_ne v log h]

variable [LawfulBEq K]

@[simp] theorem history_cons_self (k : K) (v : V) (log : List (K × V)) :
    history ((k, v) :: log) k = v :: history log k := by
  simp [history]

theorem entry_append_self (log : List (K × V)) (k : K) (v : V) :
    entry (log ++ [(k, v)]) k = some (history log k ++ [v]) := by
  rw [entry_of_ne_nil] <;> simp [history_append]

theorem entry_cons_self (log : List (K × V)) (k : K) (v : V) :
    entry ((k, v) :: log) k = some (v :: history log k) := by
  rw [entry_of_ne_nil] <;> simp

variable [Hashable K]

def Tracks (m : Std.HashMap K (List V)) (log : List (K × V)) : Prop :=
  ∀ k, m[k]? = entry log k

def RevTracks (m : Std.HashMap K (List V)) (log : List (K × V)) : Prop :=
  ∀ k, m[k]? = (entry log k).map List.reverse

omit [LawfulBEq K] in
/-- The map read for a key agrees with the newest write to it. -/
theorem Tracks.last {m : Std.HashMap K (List V)} {log : List (K × V)} (h : Tracks m log)
    (k : K) : m[k]?.bind List.getLast? = lastWrite log k := by
  rw [h k, lastWrite]
  unfold entry
  split <;> simp_all

/-- A key is in the map exactly when something was written to it. -/
theorem Tracks.contains {m : Std.HashMap K (List V)} {log : List (K × V)} (h : Tracks m log)
    (k : K) : m.contains k = !(history log k).isEmpty := by
  rw [Std.HashMap.contains_eq_isSome_getElem?, h k]
  unfold entry
  split <;> simp_all

/-- One write appends its value to its key's list. -/
theorem Tracks.push {m : Std.HashMap K (List V)} {log : List (K × V)} (h : Tracks m log)
    (k : K) (v : V) : Tracks (m.insert k (history log k ++ [v])) (log ++ [(k, v)]) := by
  intro k'
  rw [Std.HashMap.getElem?_insert]
  cases hk : k == k'
  · rw [entry_append_of_ne log v hk]
    exact h k'
  · rw [eq_of_beq hk, entry_append_self]
    simp

/-- Under the newest write, the map holds that write's value last. -/
theorem Tracks.newest {m : Std.HashMap K (List V)} {log : List (K × V)} {k : K} {v : V}
    (h : Tracks m (log ++ [(k, v)])) : m[k]? = some (history log k ++ [v]) := by
  rw [h k, entry_append_self]

/-- Undoing the newest write removes its value, and the key with it when no
older write is left. -/
theorem Tracks.undo {m : Std.HashMap K (List V)} {log : List (K × V)} {k : K} {v : V}
    (h : Tracks m (log ++ [(k, v)])) :
    Tracks (if history log k = [] then m.erase k else m.insert k (history log k)) log := by
  intro k'
  cases hk : k == k'
  · have hm := h k'
    rw [entry_append_of_ne log v hk] at hm
    split <;> simp [Std.HashMap.getElem?_erase, Std.HashMap.getElem?_insert, hk, hm]
  · have hkk := eq_of_beq hk
    subst hkk
    split
    · rename_i hnil
      simpa using ((entry_eq_none_iff log k).mpr hnil).symm
    · rename_i hne
      simp [entry_of_ne_nil hne]

/-- Reversing every list turns a tracking map into a draining one. -/
theorem Tracks.reverse {m : Std.HashMap K (List V)} {log : List (K × V)} (h : Tracks m log) :
    RevTracks (m.map fun _ l => l.reverse) log := by
  intro k
  rw [Std.HashMap.getElem?_map, h k]

/-- Under a draining map, the oldest write's value is the last of its list. -/
theorem RevTracks.oldest {m : Std.HashMap K (List V)} {log : List (K × V)} {k : K} {v : V}
    (h : RevTracks m ((k, v) :: log)) : m[k]? = some ((history log k).reverse ++ [v]) := by
  rw [h k, entry_cons_self]
  simp

/-- Draining the oldest write removes its value, and the key with it when no
newer write is left. -/
theorem RevTracks.drain {m : Std.HashMap K (List V)} {log : List (K × V)} {k : K} {v : V}
    (h : RevTracks m ((k, v) :: log)) :
    RevTracks (if history log k = [] then m.erase k
      else m.insert k (history log k).reverse) log := by
  intro k'
  cases hk : k == k'
  · have hm := h k'
    rw [entry_cons_of_ne log v hk] at hm
    split <;> simp [Std.HashMap.getElem?_erase, Std.HashMap.getElem?_insert, hk, hm]
  · have hkk := eq_of_beq hk
    subst hkk
    split
    · rename_i hnil
      simp [(entry_eq_none_iff log k).mpr hnil]
    · rename_i hne
      simp [entry_of_ne_nil hne]

/-- A map that drained its whole log is empty. -/
theorem RevTracks.isEmpty {m : Std.HashMap K (List V)} (h : RevTracks m []) :
    m.isEmpty = true := by
  rw [Std.HashMap.isEmpty_iff_forall_not_mem]
  intro k hk
  have hs := Std.HashMap.mem_iff_isSome_getElem?.mp hk
  simp [h k] at hs

end UndoLog
