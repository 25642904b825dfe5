import Mathlib

/-!
# Bounded channels

A `sync_channel(bound)` of `std::sync::mpsc`: a queue of at most `bound`
messages between one sending and one receiving end. `try_send` and
`try_recv` never wait; `send` waits while the queue is full. A call that
waits is `none`: in an interleaving it is the step that is not enabled yet.

Once the receiving end is gone every send fails with the message given back.
Dropping the sending end leaves the queue to be read, after which a receive
reports the disconnection.
-/

structure SyncChannel (α : Type) where
  queue : List α
  bound : Nat
  senderAlive : Bool
  receiverAlive : Bool
  deriving DecidableEq, Repr

namespace SyncChannel

variable {α : Type}

inductive TrySendError (α : Type) where
  | full (a : α)
  | disconnected (a : α)
  deriving DecidableEq, Repr

inductive TryRecvError where
  | empty
  | disconnected
  deriving DecidableEq, Repr

def new (bound : Nat) : SyncChannel α := ⟨[], bound, true, true⟩

def trySend (c : SyncChannel α) (a : α) : Except (TrySendError α) Unit × SyncChannel α :=
  if !c.receiverAlive then (.error (.disconnected a), c)
  else if c.queue.length < c.bound then (.ok (), { c with queue := c.queue ++ [a] })
  else (.error (.full a), c)

/-- `send`, which waits while the queue is full; its error gives the message back. -/
def send (c : SyncChannel α) (a : α) : Option (Except α Unit × SyncChannel α) :=
  if !c.receiverAlive then some (.error a, c)
  else if c.queue.length < c.bound then some (.ok (), { c with queue := c.queue ++ [a] })
  else none

def tryRecv (c : SyncChannel α) : Except TryRecvError α × SyncChannel α :=
  match c.queue with
  | a :: q => (.ok a, { c with queue := q })
  | [] => if c.senderAlive then (.error .empty, c) else (.error .disconnected, c)

def dropSender (c : SyncChannel α) : SyncChannel α := { c with senderAlive := false }

/-! ### What each operation does -/

section Spec

variable {c c' : SyncChannel α} {a b : α}

/-- A send to an open receiver either queues the message or, on a full
queue, gives it back and leaves the channel as it was. -/
theorem trySend_of_receiverAlive (h : c.receiverAlive = true) :
    (c.queue.length < c.bound ∧ c.trySend a = (.ok (), { c with queue := c.queue ++ [a] })) ∨
      (c.bound ≤ c.queue.length ∧ c.trySend a = (.error (.full a), c)) := by
  unfold trySend
  rw [if_neg (by simp [h])]
  by_cases hlen : c.queue.length < c.bound
  · exact .inl ⟨hlen, if_pos hlen⟩
  · exact .inr ⟨Nat.le_of_not_lt hlen, if_neg hlen⟩

theorem send_of_receiverAlive (h : c.receiverAlive = true) {r : Except α Unit × SyncChannel α}
    (hsend : c.send a = some r) :
    c.queue.length < c.bound ∧ r = (.ok (), { c with queue := c.queue ++ [a] }) := by
  unfold send at hsend
  rw [if_neg (by simp [h])] at hsend
  split at hsend
  · exact ⟨‹_›, (Option.some.inj hsend).symm⟩
  · cases hsend

/-- The three ends of a receive that does not wait. -/
theorem tryRecv_cases (c : SyncChannel α) :
    (∃ a q, c.queue = a :: q ∧ c.tryRecv = (.ok a, { c with queue := q })) ∨
      (c.queue = [] ∧ c.senderAlive = true ∧ c.tryRecv = (.error .empty, c)) ∨
      (c.queue = [] ∧ c.senderAlive = false ∧ c.tryRecv = (.error .disconnected, c)) := by
  unfold tryRecv
  match hq : c.queue, hs : c.senderAlive with
  | a :: q, _ => exact .inl ⟨a, q, rfl, rfl⟩
  | [], true => exact .inr (.inl ⟨rfl, rfl, by simp⟩)
  | [], false => exact .inr (.inr ⟨rfl, rfl, by simp⟩)

theorem tryRecv_eq_ok (h : c.tryRecv = (.ok a, c')) : c.queue = a :: c'.queue ∧ c' = { c with queue := c'.queue } := by
  rcases tryRecv_cases c with ⟨b, q, hq, hr⟩ | ⟨-, -, hr⟩ | ⟨-, -, hr⟩ <;> rw [hr] at h
  · simp only [Prod.mk.injEq, Except.ok.injEq] at h
    obtain ⟨rfl, rfl⟩ := h
    exact ⟨hq, rfl⟩
  · cases h
  · cases h

/-- A receive that returns a message takes it off the queue: a loop of
receives ends. -/
theorem tryRecv_ok_length (h : c.tryRecv = (.ok a, c')) : c'.queue.length < c.queue.length := by
  rw [(tryRecv_eq_ok h).1, List.length_cons]
  exact Nat.lt_succ_self _

theorem tryRecv_eq_empty (h : c.tryRecv = (.error .empty, c')) : c.queue = [] ∧ c.senderAlive = true ∧ c' = c := by
  rcases tryRecv_cases c with ⟨b, q, -, hr⟩ | ⟨hq, hs, hr⟩ | ⟨-, -, hr⟩ <;> rw [hr] at h
  · cases h
  · exact ⟨hq, hs, (Prod.mk.inj h).2.symm⟩
  · cases h

theorem tryRecv_eq_disconnected (h : c.tryRecv = (.error .disconnected, c')) :
    c.queue = [] ∧ c.senderAlive = false ∧ c' = c := by
  rcases tryRecv_cases c with ⟨b, q, -, hr⟩ | ⟨-, -, hr⟩ | ⟨hq, hs, hr⟩ <;> rw [hr] at h
  · cases h
  · cases h
  · exact ⟨hq, hs, (Prod.mk.inj h).2.symm⟩

@[simp] theorem queue_dropSender : c.dropSender.queue = c.queue := rfl

end Spec

end SyncChannel
