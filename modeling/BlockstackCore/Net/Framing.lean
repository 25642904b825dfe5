import BlockstackCore.Net.Connection

/-!
# What the inbox makes of a stream

A stream of bytes cuts into frames, as the inbox reads them: a preamble of
`preamble_size_hint` bytes, then the body the preamble announces, read once
all `payload_len` bytes of it are there. The next frame starts after the bytes
the protocol's read of the body took (`firstFrame`). `Frames P key w ms fin`
says that `w` cuts into the messages `ms` and then ends in `fin`: the start of
a frame not complete yet, or a frame that fails.

Over a protocol whose reads look only at the bytes they need (`Framed`), a
call of `consume_messages` pushes the messages that the buffered bytes and
the chunk cut into, and fails with the error of the frame that fails
(`consumeMessages_frames`). A run over any split of a stream into chunks
therefore ends as the whole stream's frames say (`consumeAll_frames`), the
same for every split (`consumeAll_split_invariant`).

The proof follows the code: one spec lemma for each half of a turn of the
loops (`preambleStep_frames`, `messageStep_frames`), which says what the turn
does to the stream the state still has to read (the buffer followed by the
rest of the chunk), and one induction on the fuel for each loop.
-/

namespace BlockstackCore

open ByteCodec Outcome

namespace ConnectionInbox

variable {Pre Msg : Type} (P : ProtocolFamily Pre Msg)

/-! ### Frames -/

/-- How a stream ends after its whole frames. -/
inductive FrameEnd where
  /-- with the bytes of a frame that is not complete yet -/
  | pending (rest : Bytes)
  /-- at a frame that fails with this error -/
  | failed (e : NetError)
  /-- at a frame whose read panics -/
  | panicked

/-- `consume_preamble` returns a preamble that does not decode as
`InvalidMessage`, and any other error as it is. -/
def preambleError : NetError → NetError
  | .deserializeError _ => .invalidMessage
  | e => e

/-- The first frame of a stream: its message and the bytes after the preamble
and the part of the body that the read took; or how the stream ends there. -/
def firstFrame (key : Option StacksPublicKey) (w : Bytes) : Except FrameEnd (Msg × Bytes) :=
  if w.length < P.preambleSizeHint then .error (.pending w)
  else
    match P.readPreamble w with
    | .err e => .error (.failed (preambleError e))
    | .panic => .error .panicked
    | .ok (pre, _) =>
      match P.payloadLen pre with
      -- not reached: the protocols of `Framed` know every body's length
      | none => .error .panicked
      | some len =>
        if w.length < P.preambleSizeHint + len then .error (.pending w)
        else
          match readBody P key pre (w.drop P.preambleSizeHint) with
          | .ok (m, k) => .ok (m, w.drop (P.preambleSizeHint + k))
          | .err e => .error (.failed e)
          | .panic => .error .panicked

/-- `Frames P key w ms fin`: the stream `w` cuts into the messages `ms`, and
then ends in `fin`. -/
inductive Frames (key : Option StacksPublicKey) : Bytes → List Msg → FrameEnd → Prop
  | last {w : Bytes} {fin : FrameEnd} : firstFrame P key w = .error fin → Frames key w [] fin
  | message {w rest : Bytes} {m : Msg} {ms : List Msg} {fin : FrameEnd} :
      firstFrame P key w = .ok (m, rest) → Frames key rest ms fin → Frames key w (m :: ms) fin

/-- What the framing needs of a protocol. Its preambles have a fixed size,
not zero and below `MAX_MESSAGE_LEN`, and are read from their own bytes. A
read of a preamble fails on fewer bytes with an underflow, and on enough bytes
never with one. It gives every body a length below `MAX_MESSAGE_LEN`. The read
of a body looks only at its `payload_len` bytes and takes at most that many. -/
structure Framed : Prop where
  hint_pos : 0 < P.preambleSizeHint
  hint_lt : P.preambleSizeHint < MAX_MESSAGE_LEN
  readPreamble_short : ∀ b, b.length < P.preambleSizeHint → ∃ msg, P.readPreamble b = err (.underflowError msg)
  readPreamble_take : ∀ b, P.preambleSizeHint ≤ b.length →
    P.readPreamble b = P.readPreamble (b.take P.preambleSizeHint)
  readPreamble_ne_underflow : ∀ b msg, P.preambleSizeHint ≤ b.length → P.readPreamble b ≠ err (.underflowError msg)
  readPreamble_ok : ∀ b pre n, P.readPreamble b = ok (pre, n) →
    n = P.preambleSizeHint ∧ ∃ len, P.payloadLen pre = some len ∧ len < MAX_MESSAGE_LEN
  readBody_take : ∀ key pre len b, P.payloadLen pre = some len → len ≤ b.length →
    readBody P key pre b = readBody P key pre (b.take len)
  readBody_le : ∀ key pre len b m k, P.payloadLen pre = some len → len ≤ b.length →
    readBody P key pre b = ok (m, k) → k ≤ len

variable {P}

/-- A body that reads was read by `read_payload`, after its signature, if
any, checked. -/
theorem readPayload_of_readBody {key : Option StacksPublicKey} {pre : Pre} {b : Bytes} {r : Msg × Nat}
    (h : readBody P key pre b = ok r) : P.readPayload pre b = ok r := by
  dsimp only [readBody] at h
  obtain ⟨_, -, h⟩ := bind_eq_ok.mp h
  cases hread : P.readPayload pre b with
  | ok r' =>
    rw [hread] at h
    cases h
    rfl
  | err e =>
    rw [hread] at h
    cases h
  | panic =>
    rw [hread] at h
    cases h

theorem Framed.readPreamble_append (hP : Framed P) {u : Bytes} (hu : P.preambleSizeHint ≤ u.length) (v : Bytes) :
    P.readPreamble (u ++ v) = P.readPreamble u := by
  have huv : P.preambleSizeHint ≤ (u ++ v).length := by simp only [List.length_append]; omega
  rw [hP.readPreamble_take _ huv, hP.readPreamble_take _ hu, List.take_append_of_le_length hu]

theorem Framed.readBody_append (hP : Framed P) {key : Option StacksPublicKey} {pre : Pre} {len : Nat}
    (hlen : P.payloadLen pre = some len) {u : Bytes} (hu : len ≤ u.length) (v : Bytes) :
    readBody P key pre (u ++ v) = readBody P key pre u := by
  have huv : len ≤ (u ++ v).length := by simp only [List.length_append]; omega
  rw [hP.readBody_take key pre len _ hlen huv, hP.readBody_take key pre len _ hlen hu,
    List.take_append_of_le_length hu]

theorem Framed.readPreamble_long (hP : Framed P) {b : Bytes} {pre : Pre} {n : Nat}
    (h : P.readPreamble b = ok (pre, n)) : P.preambleSizeHint ≤ b.length := by
  by_contra hshort
  obtain ⟨msg, hmsg⟩ := hP.readPreamble_short b (Nat.lt_of_not_le hshort)
  rw [h] at hmsg
  cases hmsg

/-! #### The first frame -/

variable {key : Option StacksPublicKey}

theorem firstFrame_short {w : Bytes} (h : w.length < P.preambleSizeHint) :
    firstFrame P key w = .error (.pending w) := by
  simp only [firstFrame, if_pos h]

theorem firstFrame_of_err {w : Bytes} {e : NetError} (hw : P.preambleSizeHint ≤ w.length)
    (h : P.readPreamble w = err e) : firstFrame P key w = .error (.failed (preambleError e)) := by
  simp only [firstFrame, if_neg (Nat.not_lt.mpr hw), h]

theorem firstFrame_of_panic {w : Bytes} (hw : P.preambleSizeHint ≤ w.length) (h : P.readPreamble w = panic) :
    firstFrame P key w = .error .panicked := by
  simp only [firstFrame, if_neg (Nat.not_lt.mpr hw), h]

theorem firstFrame_incomplete {w : Bytes} {pre : Pre} {n len : Nat} (hw : P.preambleSizeHint ≤ w.length)
    (h : P.readPreamble w = ok (pre, n)) (hlen : P.payloadLen pre = some len)
    (hlt : w.length < P.preambleSizeHint + len) : firstFrame P key w = .error (.pending w) := by
  simp only [firstFrame, if_neg (Nat.not_lt.mpr hw), h, hlen, if_pos hlt]

/-- Once the whole body is there, the first frame is what the read of the
body makes of it. -/
theorem firstFrame_complete {w : Bytes} {pre : Pre} {n len : Nat} (h : P.readPreamble w = ok (pre, n))
    (hlen : P.payloadLen pre = some len) (hge : P.preambleSizeHint + len ≤ w.length) :
    firstFrame P key w =
      match readBody P key pre (w.drop P.preambleSizeHint) with
      | .ok (m, k) => .ok (m, w.drop (P.preambleSizeHint + k))
      | .err e => .error (.failed e)
      | .panic => .error .panicked := by
  have hw : ¬ w.length < P.preambleSizeHint := by omega
  simp only [firstFrame, if_neg hw, h, hlen, if_neg (Nat.not_lt.mpr hge)]

/-- Once the whole body is in the first bytes `u`, the first frame is read
from them alone. -/
theorem firstFrame_complete_append (hP : Framed P) {u : Bytes} {pre : Pre} {n len : Nat}
    (h : P.readPreamble u = ok (pre, n)) (hlen : P.payloadLen pre = some len)
    (hge : P.preambleSizeHint + len ≤ u.length) (v : Bytes) :
    firstFrame P key (u ++ v) =
      match readBody P key pre (u.drop P.preambleSizeHint) with
      | .ok (m, k) => .ok (m, u.drop (P.preambleSizeHint + k) ++ v)
      | .err e => .error (.failed e)
      | .panic => .error .panicked := by
  have hhint : P.preambleSizeHint ≤ u.length := by omega
  have hbody : len ≤ (u.drop P.preambleSizeHint).length := by rw [List.length_drop]; omega
  rw [firstFrame_complete (by rw [hP.readPreamble_append hhint, h]) hlen (by simp only [List.length_append]; omega),
    List.drop_append_of_le_length hhint, hP.readBody_append hlen hbody]
  cases hb : readBody P key pre (u.drop P.preambleSizeHint) with
  | ok r =>
    obtain ⟨m, k⟩ := r
    have hk : k ≤ len := hP.readBody_le key pre len _ m k hlen hbody hb
    dsimp only
    rw [List.drop_append_of_le_length (by omega)]
  | err e => rfl
  | panic => rfl

/-- The bytes left pending are the whole stream. -/
theorem firstFrame_pending {w r : Bytes} (h : firstFrame P key w = .error (.pending r)) : r = w := by
  unfold firstFrame at h
  split at h
  · cases h
    rfl
  · split at h
    · cases h
    · cases h
    · split at h
      · cases h
      · split at h
        · cases h
          rfl
        · split at h <;> cases h

theorem firstFrame_eq_ok {w rest : Bytes} {m : Msg} (h : firstFrame P key w = .ok (m, rest)) :
    ∃ pre n len k, P.readPreamble w = ok (pre, n) ∧ P.payloadLen pre = some len ∧
      P.preambleSizeHint + len ≤ w.length ∧ readBody P key pre (w.drop P.preambleSizeHint) = ok (m, k) ∧
      rest = w.drop (P.preambleSizeHint + k) := by
  unfold firstFrame at h
  split at h
  · cases h
  · split at h
    · cases h
    · cases h
    · rename_i pre n hpre
      split at h
      · cases h
      · rename_i len hlen
        split at h
        · cases h
        · split at h
          · rename_i k hbody
            cases h
            exact ⟨pre, n, len, k, hpre, hlen, by omega, hbody, rfl⟩
          · cases h
          · cases h

/-- Every frame takes at least its preamble off the stream. -/
theorem firstFrame_shorter (hP : Framed P) {w rest : Bytes} {m : Msg} (h : firstFrame P key w = .ok (m, rest)) :
    rest.length < w.length := by
  obtain ⟨-, -, len, k, -, -, hge, -, rfl⟩ := firstFrame_eq_ok h
  have hpos := hP.hint_pos
  rw [List.length_drop]
  omega

/-- A frame read from a stream is read the same when more bytes follow. -/
theorem firstFrame_append_ok (hP : Framed P) {w rest : Bytes} {m : Msg}
    (h : firstFrame P key w = .ok (m, rest)) (y : Bytes) : firstFrame P key (w ++ y) = .ok (m, rest ++ y) := by
  obtain ⟨pre, n, len, k, hpre, hlen, hge, hbody, rfl⟩ := firstFrame_eq_ok h
  rw [firstFrame_complete_append hP hpre hlen hge y, hbody]

/-- So is the failure of a frame. -/
theorem firstFrame_append_stop (hP : Framed P) {w : Bytes} {fin : FrameEnd}
    (h : firstFrame P key w = .error fin) (hfin : ∀ r, fin ≠ .pending r) (y : Bytes) :
    firstFrame P key (w ++ y) = .error fin := by
  by_cases hshort : w.length < P.preambleSizeHint
  · rw [firstFrame_short hshort] at h
    cases h
    exact absurd rfl (hfin w)
  have hhint : P.preambleSizeHint ≤ w.length := Nat.le_of_not_lt hshort
  have hhint' : P.preambleSizeHint ≤ (w ++ y).length := by simp only [List.length_append]; omega
  cases hpre : P.readPreamble w with
  | err e =>
    rw [firstFrame_of_err hhint hpre] at h
    rw [firstFrame_of_err hhint' (by rw [hP.readPreamble_append hhint, hpre]), h]
  | panic =>
    rw [firstFrame_of_panic hhint hpre] at h
    rw [firstFrame_of_panic hhint' (by rw [hP.readPreamble_append hhint, hpre]), h]
  | ok r =>
    obtain ⟨pre, n⟩ := r
    obtain ⟨-, len, hlen, -⟩ := hP.readPreamble_ok _ _ _ hpre
    by_cases hlt : w.length < P.preambleSizeHint + len
    · rw [firstFrame_incomplete hhint hpre hlen hlt] at h
      cases h
      exact absurd rfl (hfin w)
    -- the body is complete in `w`, and reads the same in `w ++ y`
    have hge : P.preambleSizeHint + len ≤ w.length := Nat.le_of_not_lt hlt
    rw [firstFrame_complete hpre hlen hge] at h
    rw [firstFrame_complete_append hP hpre hlen hge y]
    split at h
    · cases h
    · exact h
    · exact h

/-! #### Cutting a stream into frames -/

theorem Frames.unique {w : Bytes} {ms ms' : List Msg} {fin fin' : FrameEnd} (h : Frames P key w ms fin)
    (h' : Frames P key w ms' fin') : ms = ms' ∧ fin = fin' := by
  induction h generalizing ms' fin' with
  | last hlast =>
    cases h' with
    | last hlast' =>
      rw [hlast] at hlast'
      cases hlast'
      exact ⟨rfl, rfl⟩
    | message hfirst _ =>
      rw [hlast] at hfirst
      cases hfirst
  | message hfirst _ ih =>
    cases h' with
    | last hlast =>
      rw [hfirst] at hlast
      cases hlast
    | message hfirst' hrest' =>
      rw [hfirst] at hfirst'
      cases hfirst'
      obtain ⟨rfl, rfl⟩ := ih hrest'
      exact ⟨rfl, rfl⟩

/-- Every stream cuts into frames: each takes at least its preamble off. -/
theorem Frames.exists (hP : Framed P) (key : Option StacksPublicKey) (w : Bytes) :
    ∃ ms fin, Frames P key w ms fin := by
  cases h : firstFrame P key w with
  | error fin => exact ⟨[], fin, .last h⟩
  | ok r =>
    obtain ⟨m, rest⟩ := r
    have := firstFrame_shorter hP h
    obtain ⟨ms, fin, hrest⟩ := Frames.exists hP key rest
    exact ⟨m :: ms, fin, .message h hrest⟩
termination_by w.length

/-- The frames of a stream whose first frame is a message: that message, and
the frames of the rest. -/
theorem Frames.of_first {w rest : Bytes} {m : Msg} {ms : List Msg} {fin : FrameEnd} (h : Frames P key w ms fin)
    (hfirst : firstFrame P key w = .ok (m, rest)) : ∃ ms', ms = m :: ms' ∧ Frames P key rest ms' fin := by
  cases h with
  | last hlast =>
    rw [hfirst] at hlast
    cases hlast
  | message hfirst' hrest =>
    rw [hfirst] at hfirst'
    cases hfirst'
    exact ⟨_, rfl, hrest⟩

theorem Frames.of_stop {w : Bytes} {ms : List Msg} {fin fin' : FrameEnd} (h : Frames P key w ms fin)
    (hfirst : firstFrame P key w = .error fin') : ms = [] ∧ fin = fin' :=
  let ⟨hms, hfin⟩ := (Frames.last hfirst).unique h
  ⟨hms.symm, hfin.symm⟩

/-- The pending bytes of a stream hold no whole frame. -/
theorem Frames.pending_rest {w r : Bytes} {ms : List Msg} (h : Frames P key w ms (.pending r)) :
    Frames P key r [] (.pending r) := by
  generalize hfin : FrameEnd.pending r = fin at h
  induction h with
  | last hlast =>
    subst hfin
    obtain rfl := firstFrame_pending hlast
    exact .last hlast
  | message _ _ ih => exact ih hfin

/-- Bytes that follow a stream continue the frame it left pending. -/
theorem Frames.append_pending (hP : Framed P) {w r y : Bytes} {ms ms' : List Msg} {fin : FrameEnd}
    (h : Frames P key w ms (.pending r)) (hy : Frames P key (r ++ y) ms' fin) :
    Frames P key (w ++ y) (ms ++ ms') fin := by
  generalize hfin : FrameEnd.pending r = fin₀ at h
  induction h with
  | last hlast =>
    subst hfin
    rw [firstFrame_pending hlast] at hy
    exact hy
  | message hfirst _ ih => exact .message (firstFrame_append_ok hP hfirst y) (ih hfin)

/-- A stream that fails, fails the same when more bytes follow. -/
theorem Frames.append_stop (hP : Framed P) {w : Bytes} {ms : List Msg} {fin : FrameEnd}
    (h : Frames P key w ms fin) (hfin : ∀ r, fin ≠ .pending r) (y : Bytes) : Frames P key (w ++ y) ms fin := by
  induction h with
  | last hlast => exact .last (firstFrame_append_stop hP hlast hfin y)
  | message hfirst _ ih => exact .message (firstFrame_append_ok hP hfirst y) (ih hfin)

/-! ### What a run of the inbox returns -/

/-- What every step keeps: the key and the bound of the inbox. -/
structure SameConfig (s s' : ConnectionInbox Pre Msg) : Prop where
  publicKey_eq : s'.publicKey = s.publicKey
  inboxMaxlen_eq : s'.inboxMaxlen = s.inboxMaxlen

theorem SameConfig.refl (s : ConnectionInbox Pre Msg) : SameConfig s s := ⟨rfl, rfl⟩

theorem SameConfig.trans {s₁ s₂ s₃ : ConnectionInbox Pre Msg} (h₁ : SameConfig s₁ s₂) (h₂ : SameConfig s₂ s₃) :
    SameConfig s₁ s₃ :=
  ⟨h₂.publicKey_eq.trans h₁.publicKey_eq, h₂.inboxMaxlen_eq.trans h₁.inboxMaxlen_eq⟩

variable (P) in
/-- The invariant of the inbox: a pending preamble is the one its buffer
starts with, and `message_ptr` is just after it. -/
def Pending (s : ConnectionInbox Pre Msg) : Prop :=
  ∀ pre, s.preamble = some pre → P.readPreamble s.buf = ok (pre, P.preambleSizeHint) ∧
    s.messagePtr = P.preambleSizeHint

/-- A run from `s` that stopped at a frame that fails: with the frame's
error, after the messages `ms` were pushed; or with a panic. -/
def Fails {α : Type} (s : ConnectionInbox Pre Msg) (ms : List Msg) (fin : FrameEnd)
    (r : Option (Except NetError α × ConnectionInbox Pre Msg)) : Prop :=
  (fin = .panicked ∧ r = none) ∨
    ∃ e s', fin = .failed e ∧ r = some (.error e, s') ∧ s'.inbox = s.inbox ++ ms ∧ SameConfig s s'

variable (P) in
/-- What a call of `consume_messages`, or a run of calls, returns on a stream
that cuts into `ms` and ends in `fin`: the messages pushed, with the bytes of
the frame in progress left in the buffer; or the error of the frame that
fails. -/
def Delivers (s : ConnectionInbox Pre Msg) (ms : List Msg) (fin : FrameEnd)
    (r : Option (Except NetError Unit × ConnectionInbox Pre Msg)) : Prop :=
  Fails s ms fin r ∨
    ∃ s', fin = .pending s'.buf ∧ r = some (.ok (), s') ∧ s'.inbox = s.inbox ++ ms ∧ Pending P s' ∧ SameConfig s s'

variable (P) in
/-- How the first loop of `consume_messages` ends: at a frame that fails, or
with the frames still to read in the buffer. -/
def LoopEnds (s : ConnectionInbox Pre Msg) (ms : List Msg) (fin : FrameEnd)
    (r : Option (Except NetError Unit × ConnectionInbox Pre Msg)) : Prop :=
  Fails s ms fin r ∨
    ∃ ms₁ ms₂ s', ms = ms₁ ++ ms₂ ∧ r = some (.ok (), s') ∧ s'.inbox = s.inbox ++ ms₁ ∧ Pending P s' ∧
      SameConfig s s' ∧ Frames P s.publicKey s'.buf ms₂ fin

section Push

variable {α : Type} {s s' : ConnectionInbox Pre Msg} {ms₀ ms : List Msg} {fin : FrameEnd}

/-- A run that started after `ms₀` were pushed ends, from the earlier state,
as if those were part of it. -/
theorem Fails.push {r : Option (Except NetError α × ConnectionInbox Pre Msg)} (h : Fails s' ms fin r)
    (hinbox : s'.inbox = s.inbox ++ ms₀) (hcfg : SameConfig s s') : Fails s (ms₀ ++ ms) fin r := by
  rcases h with h | ⟨e, s'', hfin, hr, hinbox', hcfg'⟩
  · exact .inl h
  · exact .inr ⟨e, s'', hfin, hr, by rw [hinbox', hinbox, List.append_assoc], hcfg.trans hcfg'⟩

theorem Delivers.push {r : Option (Except NetError Unit × ConnectionInbox Pre Msg)} (h : Delivers P s' ms fin r)
    (hinbox : s'.inbox = s.inbox ++ ms₀) (hcfg : SameConfig s s') : Delivers P s (ms₀ ++ ms) fin r := by
  rcases h with h | ⟨s'', hfin, hr, hinbox', hs'', hcfg'⟩
  · exact .inl (h.push hinbox hcfg)
  · exact .inr ⟨s'', hfin, hr, by rw [hinbox', hinbox, List.append_assoc], hs'', hcfg.trans hcfg'⟩

theorem LoopEnds.push {r : Option (Except NetError Unit × ConnectionInbox Pre Msg)} (h : LoopEnds P s' ms fin r)
    (hinbox : s'.inbox = s.inbox ++ ms₀) (hcfg : SameConfig s s') : LoopEnds P s (ms₀ ++ ms) fin r := by
  rcases h with h | ⟨ms₁, ms₂, s'', rfl, hr, hinbox', hs'', hcfg', hframes⟩
  · exact .inl (h.push hinbox hcfg)
  · refine .inr ⟨ms₀ ++ ms₁, ms₂, s'', by rw [List.append_assoc], hr, by rw [hinbox', hinbox, List.append_assoc],
      hs'', hcfg.trans hcfg', ?_⟩
    rw [← hcfg.publicKey_eq]
    exact hframes

/-- The first loop that returns at the end of the chunk leaves the frames to
come in the buffer. -/
theorem LoopEnds.of_end {ms₁ ms₂ : List Msg} (hms : ms = ms₁ ++ ms₂) (hinbox : s'.inbox = s.inbox ++ ms₁)
    (hs' : Pending P s') (hcfg : SameConfig s s') (hW : Frames P s'.publicKey s'.buf ms₂ fin) :
    LoopEnds P s ms fin (some (.ok (), s')) :=
  .inr ⟨ms₁, ms₂, s', hms, rfl, hinbox, hs', hcfg, hcfg.publicKey_eq ▸ hW⟩

/-- A run that fails passes its failure on, whatever it was to return. -/
theorem Fails.pass {β : Type} {r : Option (Except NetError α × ConnectionInbox Pre Msg)}
    {r' : Option (Except NetError β × ConnectionInbox Pre Msg)} (h : Fails s ms fin r)
    (hpass : ∀ e s', r = some (.error e, s') → r' = some (.error e, s')) (hnone : r = none → r' = none) :
    Fails s ms fin r' := by
  rcases h with ⟨hfin, hr⟩ | ⟨e, s'', hfin, hr, hinbox, hcfg⟩
  · exact .inl ⟨hfin, hnone hr⟩
  · exact .inr ⟨e, s'', hfin, hpass e s'' hr, hinbox, hcfg⟩

end Push

/-! ### One turn of the loops -/

@[simp] theorem sliceFrom_of_le {b : Bytes} {i : Nat} (h : i ≤ b.length) : sliceFrom b i = some (b.drop i) := by
  simp only [sliceFrom, if_pos h]

/-- `buffer_preamble_bytes` takes the bytes that are missing from a preamble,
or all of them. -/
theorem bufferPreambleBytes_eq (s : ConnectionInbox Pre Msg) (bytes : Bytes) :
    bufferPreambleBytes P s bytes =
      (min bytes.length (P.preambleSizeHint - s.buf.length),
        { s with buf := s.buf ++ bytes.take (min bytes.length (P.preambleSizeHint - s.buf.length)) }) := by
  dsimp only [bufferPreambleBytes]
  split_ifs with hfull hfits
  · have hzero : P.preambleSizeHint - s.buf.length = 0 := by omega
    simp only [hzero, Nat.min_zero, List.take_zero, List.append_nil]
  · rw [Nat.min_eq_left (by omega)]
  · rw [Nat.min_eq_right (by omega)]

/-- `buffer_message_bytes` takes the bytes that are missing from the body,
or all of them. -/
theorem bufferMessageBytes_eq {s : ConnectionInbox Pre Msg} (hptr : s.messagePtr ≤ s.buf.length) (bytes : Bytes)
    (len : Nat) :
    bufferMessageBytes s bytes (some len) =
      some (min bytes.length (len - (s.buf.length - s.messagePtr)),
        { s with buf := s.buf ++ bytes.take (min bytes.length (len - (s.buf.length - s.messagePtr))) }) := by
  simp only [bufferMessageBytes, Option.getD_some, sliceFrom_of_le hptr, List.length_drop]
  split_ifs with hover hmore
  · rw [Nat.min_eq_right (by omega)]
  · -- the buffer already holds the whole body
    rw [Nat.min_eq_right (by omega), show len - (s.buf.length - s.messagePtr) = 0 by omega]
  · rw [Nat.min_eq_left (by omega)]

section ConsumePreamble

variable {s s₁ : ConnectionInbox Pre Msg} {bytes : Bytes} {t : Nat}

theorem consumePreamble_of_ok (hbuf : bufferPreambleBytes P s bytes = (t, s₁)) {pre : Pre} {n len : Nat}
    (hread : P.readPreamble s₁.buf = ok (pre, n)) (hn : n < MAX_MESSAGE_LEN) (hlen : P.payloadLen pre = some len)
    (hlt : len < MAX_MESSAGE_LEN) :
    consumePreamble P bytes s = some (.ok (some pre, t), { s₁ with messagePtr := n, payloadPtr := n }) := by
  have h32 : MAX_MESSAGE_LEN < 2 ^ 32 := by decide
  simp only [consumePreamble, hbuf, hread, hlen, Option.any_some]
  rw [if_pos (by omega), if_neg (by simp only [decide_eq_true_eq]; omega)]

/-- An error that is not an underflow fails the call, a `DeserializeError`
as `InvalidMessage`. -/
theorem consumePreamble_of_err (hbuf : bufferPreambleBytes P s bytes = (t, s₁)) {e : NetError}
    (hread : P.readPreamble s₁.buf = err e) (he : ∀ msg, e ≠ .underflowError msg) :
    consumePreamble P bytes s = some (.error (preambleError e), s₁) := by
  simp only [consumePreamble, hbuf, hread]
  cases e with
  | underflowError msg => exact absurd rfl (he msg)
  | _ => rfl

theorem consumePreamble_of_underflow (hbuf : bufferPreambleBytes P s bytes = (t, s₁)) {msg : String}
    (hread : P.readPreamble s₁.buf = err (.underflowError msg)) (hall : t = bytes.length) :
    consumePreamble P bytes s = some (.ok (none, t), s₁) := by
  simp only [consumePreamble, hbuf, hread]
  rw [if_neg (by omega)]

theorem consumePreamble_of_panic (hbuf : bufferPreambleBytes P s bytes = (t, s₁))
    (hread : P.readPreamble s₁.buf = panic) : consumePreamble P bytes s = none := by
  simp only [consumePreamble, hbuf, hread]

end ConsumePreamble

section ConsumePayload

variable {s : ConnectionInbox Pre Msg} {pre : Pre} {len : Nat}

theorem consumePayloadKnownLength_incomplete (hlen : P.payloadLen pre = some len) (hptr : s.messagePtr ≤ s.buf.length)
    (hlt : s.buf.length < s.messagePtr + len) : consumePayloadKnownLength P pre s = some (.ok none, s) := by
  simp only [consumePayloadKnownLength, hlen, sliceFrom_of_le hptr, List.length_drop]
  rw [if_neg (by omega)]

theorem consumePayloadKnownLength_of_ok (hlen : P.payloadLen pre = some len) (hge : s.messagePtr + len ≤ s.buf.length)
    {m : Msg} {k : Nat} (hbody : readBody P s.publicKey pre (s.buf.drop s.messagePtr) = ok (m, k)) (hk : k ≤ len)
    (hfit : s.messagePtr + k < 2 ^ 64) :
    consumePayloadKnownLength P pre s =
      some (.ok (some m), { s with messagePtr := 0, payloadPtr := 0, buf := s.buf.drop (s.messagePtr + k) }) := by
  simp only [consumePayloadKnownLength, hlen, sliceFrom_of_le (show s.messagePtr ≤ s.buf.length by omega),
    List.length_drop]
  rw [if_pos (by omega), hbody]
  simp only [checkedAdd, if_pos hfit, sliceFrom_of_le (show s.messagePtr + k ≤ s.buf.length by omega)]

theorem consumePayloadKnownLength_of_err (hlen : P.payloadLen pre = some len)
    (hge : s.messagePtr + len ≤ s.buf.length) {e : NetError}
    (hbody : readBody P s.publicKey pre (s.buf.drop s.messagePtr) = err e) :
    consumePayloadKnownLength P pre s = some (.error e, s) := by
  simp only [consumePayloadKnownLength, hlen, sliceFrom_of_le (show s.messagePtr ≤ s.buf.length by omega),
    List.length_drop]
  rw [if_pos (by omega), hbody]

theorem consumePayloadKnownLength_of_panic (hlen : P.payloadLen pre = some len)
    (hge : s.messagePtr + len ≤ s.buf.length) (hbody : readBody P s.publicKey pre (s.buf.drop s.messagePtr) = panic) :
    consumePayloadKnownLength P pre s = none := by
  simp only [consumePayloadKnownLength, hlen, sliceFrom_of_le (show s.messagePtr ≤ s.buf.length by omega),
    List.length_drop]
  rw [if_pos (by omega), hbody]

end ConsumePayload

/-- The first half of a turn. From a state with no pending preamble it
buffers the bytes a preamble still needs. If the preamble does not read, the
stream's first frame fails the same way. If it reads, it is pending. If it is
not all there yet, every byte was buffered and the stream is pending. -/
theorem preambleStep_frames (hP : Framed P) {s : ConnectionInbox Pre Msg} (hs : Pending P s) (bytes : Bytes) :
    (∃ fin, firstFrame P s.publicKey (s.buf ++ bytes) = .error fin ∧ Fails s [] fin (preambleStep P bytes s)) ∨
    ∃ n s', preambleStep P bytes s = some (.ok n, s') ∧ n ≤ bytes.length ∧ s'.buf ++ bytes.drop n = s.buf ++ bytes ∧
      s'.inbox = s.inbox ∧ Pending P s' ∧ SameConfig s s' ∧
      (s'.preamble = none →
        n = bytes.length ∧ firstFrame P s.publicKey (s.buf ++ bytes) = .error (.pending (s.buf ++ bytes))) := by
  cases hpre : s.preamble with
  | some pre =>
    -- a preamble is pending already
    right
    refine ⟨0, s, by simp [preambleStep, hpre], Nat.zero_le _, by simp, rfl, hs, .refl s, fun h => ?_⟩
    rw [hpre] at h
    cases h
  | none =>
    obtain ⟨t, ht⟩ : ∃ t, t = min bytes.length (P.preambleSizeHint - s.buf.length) := ⟨_, rfl⟩
    have hbuf := bufferPreambleBytes_eq (P := P) s bytes
    rw [← ht] at hbuf
    have hsplit : s.buf ++ bytes.take t ++ bytes.drop t = s.buf ++ bytes := by simp
    by_cases hshort : (s.buf ++ bytes.take t).length < P.preambleSizeHint
    · -- not a whole preamble yet: every byte is buffered, and the stream is pending
      have hall : t = bytes.length := by
        simp only [List.length_append, List.length_take] at hshort
        omega
      obtain ⟨msg, hread⟩ := hP.readPreamble_short _ hshort
      have hwhole : s.buf ++ bytes.take t = s.buf ++ bytes := by rw [hall, List.take_length]
      right
      refine ⟨t, { s with buf := s.buf ++ bytes.take t, preamble := none }, ?_, by omega, hsplit, rfl,
        (fun _ h => by cases h), ⟨rfl, rfl⟩, fun _ => ⟨hall, ?_⟩⟩
      · simp [preambleStep, hpre, consumePreamble_of_underflow hbuf hread hall]
      · rw [← hwhole]
        exact firstFrame_short hshort
    · have hlong : P.preambleSizeHint ≤ (s.buf ++ bytes.take t).length := Nat.le_of_not_lt hshort
      have hlong' : P.preambleSizeHint ≤ (s.buf ++ bytes).length := by
        rw [← hsplit, List.length_append]
        omega
      have hsame : P.readPreamble (s.buf ++ bytes) = P.readPreamble (s.buf ++ bytes.take t) := by
        rw [← hsplit, hP.readPreamble_append hlong]
      cases hread : P.readPreamble (s.buf ++ bytes.take t) with
      | ok r =>
        obtain ⟨pre, n⟩ := r
        obtain ⟨rfl, len, hlen, hlt⟩ := hP.readPreamble_ok _ _ _ hread
        right
        let s' : ConnectionInbox Pre Msg :=
          { s with
            buf := s.buf ++ bytes.take t
            preamble := some pre
            messagePtr := P.preambleSizeHint
            payloadPtr := P.preambleSizeHint }
        refine ⟨t, s', ?_, by omega, hsplit, rfl, fun _ h => ?_, ⟨rfl, rfl⟩, fun h => by cases h⟩
        · simp [s', preambleStep, hpre, consumePreamble_of_ok hbuf hread hP.hint_lt hlen hlt]
        · cases h
          exact ⟨hread, rfl⟩
      | err e =>
        have he : ∀ msg, e ≠ .underflowError msg := fun msg h =>
          hP.readPreamble_ne_underflow _ msg hlong (hread.trans (congrArg err h))
        left
        refine ⟨.failed (preambleError e), firstFrame_of_err hlong' (hsame.trans hread),
          .inr ⟨_, { s with buf := s.buf ++ bytes.take t }, rfl, ?_, (List.append_nil _).symm, ⟨rfl, rfl⟩⟩⟩
        simp [preambleStep, hpre, consumePreamble_of_err hbuf hread he]
      | panic =>
        left
        refine ⟨.panicked, firstFrame_of_panic hlong' (hsame.trans hread), .inl ⟨rfl, ?_⟩⟩
        simp [preambleStep, hpre, consumePreamble_of_panic hbuf hread]

/-- `messageStep` on a body whose length is known: `consume_payload_known_length`
after `buffer_message_bytes`, on the state with the preamble taken out. -/
theorem messageStep_of_known {s s₁ : ConnectionInbox Pre Msg} {pre : Pre} (hpre : s.preamble = some pre)
    {len t : Nat} (hlen : P.payloadLen pre = some len) {bytes : Bytes}
    (hbuf : bufferMessageBytes { s with preamble := none } bytes (some len) = some (t, s₁)) :
    messageStep P bytes s =
      match consumePayloadKnownLength P pre s₁ with
      | none => none
      | some (.error e, s') => some (.error e, s')
      | some (.ok (some m), s') => some (.ok (true, t), { s' with inbox := s'.inbox ++ [m], preamble := none })
      | some (.ok none, s') => some (.ok (false, t), { s' with preamble := some pre }) := by
  rw [messageStep, hpre]
  simp only [consumePayload, hbuf, hlen, Option.isSome_some, if_true]
  rcases consumePayloadKnownLength P pre s₁ with _ | ⟨_ | (_ | m), s'⟩ <;> rfl

section MessageStep

variable {s : ConnectionInbox Pre Msg} {pre : Pre} {len : Nat} {bytes : Bytes}

/-- A turn with a preamble pending whose body is not all there, even with the
chunk: every byte is buffered, and the stream is pending. -/
theorem messageStep_incomplete (hP : Framed P) (hpre : s.preamble = some pre)
    (hread : P.readPreamble s.buf = ok (pre, P.preambleSizeHint)) (hptr : s.messagePtr = P.preambleSizeHint)
    (hlen : P.payloadLen pre = some len) (hlt : (s.buf ++ bytes).length < P.preambleSizeHint + len) :
    ∃ s', firstFrame P s.publicKey (s.buf ++ bytes) = .error (.pending (s.buf ++ bytes)) ∧
      messageStep P bytes s = some (.ok (false, bytes.length), s') ∧ s'.buf = s.buf ++ bytes ∧
      s'.inbox = s.inbox ∧ Pending P s' ∧ SameConfig s s' ∧ s'.preamble = some pre := by
  have hhint : P.preambleSizeHint ≤ s.buf.length := hP.readPreamble_long hread
  have hread' : P.readPreamble (s.buf ++ bytes) = ok (pre, P.preambleSizeHint) := by
    rw [hP.readPreamble_append hhint, hread]
  rw [List.length_append] at hlt
  -- `buffer_message_bytes` takes every byte
  have hall : min bytes.length (len - (s.buf.length - s.messagePtr)) = bytes.length := by omega
  let s₁ : ConnectionInbox Pre Msg := { s with preamble := none, buf := s.buf ++ bytes }
  have hbuf : bufferMessageBytes { s with preamble := none } bytes (some len) = some (bytes.length, s₁) := by
    rw [bufferMessageBytes_eq (by simp only; omega), hall, List.take_length]
  refine ⟨{ s₁ with preamble := some pre },
    firstFrame_incomplete (by simp only [List.length_append]; omega) hread' hlen (by simp only [List.length_append]; omega),
    ?_, rfl, rfl, fun _ h => ?_, ⟨rfl, rfl⟩, rfl⟩
  · rw [messageStep_of_known hpre hlen hbuf,
      consumePayloadKnownLength_incomplete hlen (by simp only [s₁, List.length_append]; omega)
        (by simp only [s₁, List.length_append]; omega)]
  · cases h
    exact ⟨hread', hptr⟩

/-- A turn with a preamble pending whose body is all there once the chunk is
added. It buffers the bytes the body still needs, and pushes the message the
stream's first frame holds, or returns the frame's failure. -/
theorem messageStep_complete (hP : Framed P) (hpre : s.preamble = some pre)
    (hread : P.readPreamble s.buf = ok (pre, P.preambleSizeHint)) (hptr : s.messagePtr = P.preambleSizeHint)
    (hlen : P.payloadLen pre = some len) (hmax : len < MAX_MESSAGE_LEN)
    (hge : P.preambleSizeHint + len ≤ (s.buf ++ bytes).length) :
    (∃ fin, firstFrame P s.publicKey (s.buf ++ bytes) = .error fin ∧ Fails s [] fin (messageStep P bytes s)) ∨
    ∃ m t s', firstFrame P s.publicKey (s.buf ++ bytes) = .ok (m, s'.buf ++ bytes.drop t) ∧
      messageStep P bytes s = some (.ok (true, t), s') ∧ t ≤ bytes.length ∧ s'.inbox = s.inbox ++ [m] ∧
      Pending P s' ∧ SameConfig s s' := by
  have hhint : P.preambleSizeHint ≤ s.buf.length := hP.readPreamble_long hread
  obtain ⟨t, ht⟩ : ∃ t, t = min bytes.length (len - (s.buf.length - s.messagePtr)) := ⟨_, rfl⟩
  -- `buffer_message_bytes`, on the state with the preamble taken out
  let s₁ : ConnectionInbox Pre Msg := { s with preamble := none, buf := s.buf ++ bytes.take t }
  have hbuf : bufferMessageBytes { s with preamble := none } bytes (some len) = some (t, s₁) := by
    rw [bufferMessageBytes_eq (by simp only; omega), ← ht]
  have hstep := messageStep_of_known hpre hlen hbuf
  have hlen₁ : s₁.buf.length = s.buf.length + t := by simp [s₁, ht]
  have hptr₁ : s₁.messagePtr = P.preambleSizeHint := hptr
  have hge₁ : s₁.messagePtr + len ≤ s₁.buf.length := by
    rw [List.length_append] at hge
    omega
  have hbody₁ : s₁.buf.drop s₁.messagePtr = s₁.buf.drop P.preambleSizeHint := by simp only [s₁, hptr]
  -- the stream's first frame lies in the buffered bytes
  have hread₁ : P.readPreamble s₁.buf = ok (pre, P.preambleSizeHint) := by
    simp only [s₁]
    rw [hP.readPreamble_append hhint, hread]
  have hframe : firstFrame P s.publicKey (s₁.buf ++ bytes.drop t) = _ :=
    firstFrame_complete_append hP hread₁ hlen (by omega) (bytes.drop t)
  rw [show s₁.buf ++ bytes.drop t = s.buf ++ bytes by simp [s₁]] at hframe
  cases hread_body : readBody P s.publicKey pre (s₁.buf.drop P.preambleSizeHint) with
  | ok r =>
    obtain ⟨m, k⟩ := r
    have hk : k ≤ len := hP.readBody_le _ _ _ _ _ _ hlen (by rw [List.length_drop]; omega) hread_body
    rw [hread_body] at hframe
    let s₂ : ConnectionInbox Pre Msg :=
      { s₁ with
        buf := s₁.buf.drop (P.preambleSizeHint + k)
        messagePtr := 0
        payloadPtr := 0
        inbox := s₁.inbox ++ [m]
        preamble := none }
    right
    refine ⟨m, t, s₂, hframe, ?_, by omega, rfl, (fun _ h => by cases h), ⟨rfl, rfl⟩⟩
    have h32 : MAX_MESSAGE_LEN < 2 ^ 32 := by decide
    have hfit : s₁.messagePtr + k < 2 ^ 64 := by have := hP.hint_lt; omega
    rw [hstep, consumePayloadKnownLength_of_ok hlen hge₁ (by rw [hbody₁]; exact hread_body) hk hfit]
    simp only [s₂, s₁, hptr]
  | err e =>
    rw [hread_body] at hframe
    left
    refine ⟨.failed e, hframe, .inr ⟨e, s₁, rfl, ?_, (List.append_nil _).symm, ⟨rfl, rfl⟩⟩⟩
    rw [hstep, consumePayloadKnownLength_of_err hlen hge₁ (by rw [hbody₁]; exact hread_body)]
  | panic =>
    rw [hread_body] at hframe
    left
    refine ⟨.panicked, hframe, .inl ⟨rfl, ?_⟩⟩
    rw [hstep, consumePayloadKnownLength_of_panic hlen hge₁ (by rw [hbody₁]; exact hread_body)]

end MessageStep

/-- The second half of a turn, with a preamble pending. It buffers the bytes
the body still needs. Once the body is all there, the message the stream's
first frame holds is pushed, or the frame's failure is returned. If the body
is not all there yet, every byte was buffered, and the stream is pending. -/
theorem messageStep_frames (hP : Framed P) {s : ConnectionInbox Pre Msg} (hs : Pending P s) {pre : Pre}
    (hpre : s.preamble = some pre) (bytes : Bytes) :
    (∃ fin, firstFrame P s.publicKey (s.buf ++ bytes) = .error fin ∧ Fails s [] fin (messageStep P bytes s)) ∨
    (∃ m t s', firstFrame P s.publicKey (s.buf ++ bytes) = .ok (m, s'.buf ++ bytes.drop t) ∧
      messageStep P bytes s = some (.ok (true, t), s') ∧ t ≤ bytes.length ∧ s'.inbox = s.inbox ++ [m] ∧
      Pending P s' ∧ SameConfig s s') ∨
    (∃ s', firstFrame P s.publicKey (s.buf ++ bytes) = .error (.pending (s.buf ++ bytes)) ∧
      messageStep P bytes s = some (.ok (false, bytes.length), s') ∧ s'.buf = s.buf ++ bytes ∧
      s'.inbox = s.inbox ∧ Pending P s' ∧ SameConfig s s' ∧ s'.preamble = some pre) := by
  obtain ⟨hread, hptr⟩ := hs pre hpre
  obtain ⟨-, len, hlen, hmax⟩ := hP.readPreamble_ok _ _ _ hread
  by_cases hlt : (s.buf ++ bytes).length < P.preambleSizeHint + len
  · exact .inr (.inr (messageStep_incomplete hP hpre hread hptr hlen hlt))
  · rcases messageStep_complete hP hpre hread hptr hlen hmax (Nat.le_of_not_lt hlt) with h | h
    · exact .inl h
    · exact .inr (.inl h)

/-! ### The two loops and a whole call -/

/-- The first loop of `consume_messages`, from `offset` in the chunk, while
the inbox has room for the messages to come. Each turn either ends the loop,
at the end of the chunk or at a frame that fails, or takes a whole frame off
the stream the state has to read, which the fuel bounds. -/
theorem consumeLoop_frames (hP : Framed P) (buf : Bytes) :
    ∀ (fuel offset : Nat) (s : ConnectionInbox Pre Msg) (ms : List Msg) (fin : FrameEnd),
      offset ≤ buf.length → Pending P s → Frames P s.publicKey (s.buf ++ buf.drop offset) ms fin →
      s.inbox.length + ms.length ≤ s.inboxMaxlen → (s.buf ++ buf.drop offset).length < fuel →
      LoopEnds P s ms fin (consumeLoop P buf fuel offset s)
  | 0, _, _, _, _, _, _, _, _, hfuel => absurd hfuel (Nat.not_lt_zero _)
  | fuel + 1, offset, s, ms, fin, hoff, hs, hW, hbound, hfuel => by
    have hroom : ¬ s.inbox.length > s.inboxMaxlen := by omega
    rcases preambleStep_frames hP hs (buf.drop offset) with
      ⟨fin₀, hfirst, hfails⟩ | ⟨n, s₁, hstep₁, hn, hbuf₁, hinbox₁, hs₁, hcfg₁, hnone₁⟩
    · -- the preamble fails, and with it the stream
      obtain ⟨rfl, rfl⟩ := hW.of_stop hfirst
      refine .inl (hfails.pass (fun e s' h => ?_) (fun h => ?_))
      · simp only [consumeLoop, if_neg hroom, h]
      · simp only [consumeLoop, if_neg hroom, h]
    have hW₁ : Frames P s₁.publicKey (s₁.buf ++ buf.drop (offset + n)) ms fin := by
      rw [← List.drop_drop, hbuf₁, hcfg₁.publicKey_eq]
      exact hW
    simp only [consumeLoop, if_neg hroom, hstep₁]
    by_cases hend₁ : offset + n = buf.length
    · -- the chunk is used up: the frames to come are all in the buffer
      rw [if_pos hend₁]
      rw [hend₁, List.drop_length, List.append_nil] at hW₁
      exact .of_end (List.nil_append ms).symm (by rw [hinbox₁, List.append_nil]) hs₁ hcfg₁ hW₁
    rw [if_neg hend₁]
    -- bytes are left, so a preamble is pending
    obtain ⟨pre, hpre⟩ := Option.ne_none_iff_exists'.mp fun h => by
      have := (hnone₁ h).1
      rw [List.length_drop] at this
      omega
    rcases messageStep_frames hP hs₁ hpre (buf.drop (offset + n)) with
      ⟨fin₀, hfirst, hfails⟩ | ⟨m, t, s₂, hfirst, hstep₂, ht, hinbox₂, hs₂, hcfg₂⟩ |
        ⟨s₂, hfirst, hstep₂, hbuf₂, hinbox₂, hs₂, hcfg₂, -⟩
    · -- the body fails, and with it the stream
      obtain ⟨rfl, rfl⟩ := hW₁.of_stop hfirst
      have hinbox : s₁.inbox = s.inbox ++ [] := by rw [hinbox₁, List.append_nil]
      refine .inl ((hfails.pass (fun e s' h => ?_) (fun h => ?_)).push hinbox hcfg₁)
      · simp only [h]
      · simp only [h]
    · -- a message: the rest of the stream is the same problem one frame on
      obtain ⟨ms', rfl, hrest⟩ := hW₁.of_first hfirst
      rw [hcfg₁.publicKey_eq] at hrest
      have hshorter := firstFrame_shorter hP hfirst
      simp only [hstep₂]
      have hinbox : s₂.inbox = s.inbox ++ [m] := by rw [hinbox₂, hinbox₁]
      have hcfg : SameConfig s s₂ := hcfg₁.trans hcfg₂
      rw [List.drop_drop] at hrest hshorter
      by_cases hend₂ : offset + n + t = buf.length
      · rw [if_pos hend₂]
        rw [hend₂, List.drop_length, List.append_nil, ← hcfg.publicKey_eq] at hrest
        exact .of_end rfl hinbox hs₂ hcfg hrest
      rw [if_neg hend₂]
      have hnext := consumeLoop_frames hP buf fuel (offset + n + t) s₂ ms' fin (by rw [List.length_drop] at ht hn; omega)
        hs₂ (by rw [hcfg.publicKey_eq]; exact hrest)
        (by
          rw [hinbox, hcfg.inboxMaxlen_eq]
          simp only [List.length_append, List.length_cons, List.length_nil] at hbound ⊢
          omega)
        (by rw [← hbuf₁, List.drop_drop] at hfuel; omega)
      exact hnext.push hinbox hcfg
    · -- the body is not all there: the chunk is used up
      obtain ⟨rfl, rfl⟩ := hW₁.of_stop hfirst
      simp only [hstep₂]
      rw [if_pos (by rw [List.length_drop] at hn ⊢; omega)]
      refine .of_end rfl (by rw [hinbox₂, hinbox₁, List.append_nil]) hs₂ (hcfg₁.trans hcfg₂) ?_
      rw [hbuf₂, hcfg₂.publicKey_eq]
      exact hW₁

/-- The second loop of `consume_messages` pushes the messages of the frames
the buffer holds, and stops at the frame in progress or at one that fails. -/
theorem drainLoop_frames (hP : Framed P) :
    ∀ (fuel : Nat) (s : ConnectionInbox Pre Msg) (ms : List Msg) (fin : FrameEnd), Pending P s →
      Frames P s.publicKey s.buf ms fin → s.buf.length < fuel → Delivers P s ms fin (drainLoop P fuel s)
  | 0, _, _, _, _, _, hfuel => absurd hfuel (Nat.not_lt_zero _)
  | fuel + 1, s, ms, fin, hs, hW, hfuel => by
    rw [← List.append_nil s.buf] at hW
    rcases preambleStep_frames hP hs [] with
      ⟨fin₀, hfirst, hfails⟩ | ⟨n, s₁, hstep₁, hn, hbuf₁, hinbox₁, hs₁, hcfg₁, hnone₁⟩
    · obtain ⟨rfl, rfl⟩ := hW.of_stop hfirst
      refine .inl (hfails.pass (fun e s' h => ?_) (fun h => ?_))
      · simp only [drainLoop, h]
      · simp only [drainLoop, h]
    simp only [List.drop_nil, List.append_nil] at hbuf₁
    simp only [drainLoop, hstep₁]
    cases hpre : s₁.preamble with
    | none =>
      -- no whole preamble: the buffer is the frame in progress
      obtain ⟨rfl, rfl⟩ := hW.of_stop (hnone₁ hpre).2
      simp only [messageStep, hpre]
      exact .inr ⟨s₁, by rw [hbuf₁, List.append_nil], rfl, by rw [hinbox₁, List.append_nil], hs₁, hcfg₁⟩
    | some pre =>
      rw [← hbuf₁, ← hcfg₁.publicKey_eq] at hW
      rcases messageStep_frames hP hs₁ hpre [] with
        ⟨fin₀, hfirst, hfails⟩ | ⟨m, t, s₂, hfirst, hstep₂, -, hinbox₂, hs₂, hcfg₂⟩ |
          ⟨s₂, hfirst, hstep₂, hbuf₂, hinbox₂, hs₂, hcfg₂, -⟩
      · obtain ⟨rfl, rfl⟩ := hW.of_stop hfirst
        have hinbox : s₁.inbox = s.inbox ++ [] := by rw [hinbox₁, List.append_nil]
        refine .inl ((hfails.pass (fun e s' h => ?_) (fun h => ?_)).push hinbox hcfg₁)
        · simp only [h]
        · simp only [h]
      · -- a message, and the buffer after it is drained next
        obtain ⟨ms', rfl, hrest⟩ := hW.of_first hfirst
        have hshorter := firstFrame_shorter hP hfirst
        simp only [List.drop_nil, List.append_nil] at hrest hshorter
        simp only [hstep₂]
        have hinbox : s₂.inbox = s.inbox ++ [m] := by rw [hinbox₂, hinbox₁]
        have hnext := drainLoop_frames hP fuel s₂ ms' fin hs₂ (by rw [hcfg₂.publicKey_eq]; exact hrest)
          (by rw [← hbuf₁] at hfuel; omega)
        exact hnext.push hinbox (hcfg₁.trans hcfg₂)
      · obtain ⟨rfl, rfl⟩ := hW.of_stop hfirst
        simp only [hstep₂]
        exact .inr ⟨s₂, by rw [hbuf₂, hbuf₁], rfl, by rw [hinbox₂, hinbox₁, List.append_nil], hs₂,
          hcfg₁.trans hcfg₂⟩

/-- A call of `consume_messages` pushes the messages that the buffered bytes
followed by the chunk cut into, when the inbox has room for them. It returns
with the frame in progress in the buffer, or with the error of the frame that
fails. -/
theorem consumeMessages_frames (hP : Framed P) {s : ConnectionInbox Pre Msg} (hs : Pending P s) {buf : Bytes}
    {ms : List Msg} {fin : FrameEnd} (hW : Frames P s.publicKey (s.buf ++ buf) ms fin)
    (hbound : s.inbox.length + ms.length ≤ s.inboxMaxlen) : Delivers P s ms fin (consumeMessages P buf s) := by
  have hloop := consumeLoop_frames hP buf (s.buf.length + buf.length + 1) 0 s ms fin (Nat.zero_le _) hs
    (by rw [List.drop_zero]; exact hW) hbound (by simp)
  rcases hloop with hfails | ⟨ms₁, ms₂, s₁, rfl, hres, hinbox₁, hs₁, hcfg₁, hW₁⟩
  · refine .inl (hfails.pass (fun e s' h => ?_) (fun h => ?_))
    · simp only [consumeMessages, h]
    · simp only [consumeMessages, h]
  simp only [consumeMessages, hres]
  by_cases hempty : s₁.buf.length > 0
  · rw [if_pos hempty]
    have hdrain := drainLoop_frames hP (s₁.buf.length + 1) s₁ ms₂ fin hs₁ (by rw [hcfg₁.publicKey_eq]; exact hW₁)
      (Nat.lt_succ_self _)
    exact hdrain.push hinbox₁ hcfg₁
  · rw [if_neg hempty]
    -- an empty buffer holds no frame
    have hnil : s₁.buf = [] := List.eq_nil_of_length_eq_zero (by omega)
    rw [hnil] at hW₁
    obtain ⟨rfl, rfl⟩ := hW₁.of_stop (firstFrame_short (by simp only [List.length_nil]; exact hP.hint_pos))
    exact .inr ⟨s₁, by rw [hnil], rfl, by rw [hinbox₁, List.append_nil], hs₁, hcfg₁⟩

/-- A call that fails, or panics, ends the run there. -/
theorem consumeAll_of_fails {s : ConnectionInbox Pre Msg} {chunk : Bytes} {chunks : List Bytes} {ms : List Msg}
    {fin : FrameEnd} (h : Fails s ms fin (consumeMessages P chunk s)) :
    consumeAll P (chunk :: chunks) s = consumeMessages P chunk s := by
  rcases h with ⟨-, hr⟩ | ⟨e, s', -, hr, -⟩ <;> simp only [consumeAll, hr]

/-- Over any split of a stream into chunks, fed in turn to an inbox whose
buffer holds no whole frame and that has room for the messages, the run
pushes the messages that the buffer followed by the whole stream cut into,
and ends as they end: with the frame in progress in the buffer, or with the
error of the frame that fails. -/
theorem consumeAll_frames (hP : Framed P) :
    ∀ (chunks : List Bytes) (s : ConnectionInbox Pre Msg) (ms : List Msg) (fin : FrameEnd), Pending P s →
      Frames P s.publicKey s.buf [] (.pending s.buf) → Frames P s.publicKey (s.buf ++ chunks.flatten) ms fin →
      s.inbox.length + ms.length ≤ s.inboxMaxlen → Delivers P s ms fin (consumeAll P chunks s)
  | [], s, ms, fin, hs, hsettled, hW, _ => by
    rw [List.flatten_nil, List.append_nil] at hW
    obtain ⟨rfl, rfl⟩ := hsettled.unique hW
    exact .inr ⟨s, rfl, rfl, by rw [List.append_nil], hs, .refl s⟩
  | chunk :: chunks, s, ms, fin, hs, hsettled, hW, hbound => by
    rw [List.flatten_cons, ← List.append_assoc] at hW
    -- the frames of the stream up to the end of the first chunk
    obtain ⟨ms₀, fin₀, h₀⟩ := Frames.exists hP s.publicKey (s.buf ++ chunk)
    by_cases hstop : ∀ r, fin₀ ≠ .pending r
    · -- the stream fails within the first chunk, and so does the run
      obtain ⟨rfl, rfl⟩ := (h₀.append_stop hP hstop chunks.flatten).unique hW
      rcases consumeMessages_frames hP hs h₀ hbound with hfails | ⟨s₁, hfin, -⟩
      · rw [consumeAll_of_fails hfails]
        exact .inl hfails
      · exact absurd hfin (hstop _)
    -- the first chunk ends inside a frame, which the next chunks continue
    obtain ⟨r, rfl⟩ : ∃ r, fin₀ = .pending r := by
      by_contra hnot
      exact hstop fun r h => hnot ⟨r, h⟩
    obtain ⟨ms', fin', h'⟩ := Frames.exists hP s.publicKey (r ++ chunks.flatten)
    obtain ⟨rfl, rfl⟩ := (h₀.append_pending hP h').unique hW
    rw [List.length_append] at hbound
    rcases consumeMessages_frames hP hs h₀ (by omega) with
      ⟨⟨hfin, -⟩ | ⟨e, -, hfin, -⟩⟩ | ⟨s₁, hfin, hres, hinbox₁, hs₁, hcfg₁⟩
    · cases hfin
    · cases hfin
    cases hfin
    simp only [consumeAll, hres]
    have hnext := consumeAll_frames hP chunks s₁ ms' _ hs₁
      (by rw [hcfg₁.publicKey_eq]; exact h₀.pending_rest) (by rw [hcfg₁.publicKey_eq]; exact h')
      (by rw [hinbox₁, hcfg₁.inboxMaxlen_eq, List.length_append]; omega)
    exact hnext.push hinbox₁ hcfg₁

/-- What a run returns, seen from outside: its result, and the messages in
the inbox. -/
def observe (r : Option (Except NetError Unit × ConnectionInbox Pre Msg)) : Option (Except NetError Unit × List Msg) :=
  r.map fun (x, s) => (x, s.inbox)

/-- What a run that ends in `fin` returns, with `ms` in the inbox. -/
def FrameEnd.observed (ms : List Msg) : FrameEnd → Option (Except NetError Unit × List Msg)
  | .pending _ => some (.ok (), ms)
  | .failed e => some (.error e, ms)
  | .panicked => none

theorem Delivers.observe_eq {s : ConnectionInbox Pre Msg} {ms : List Msg} {fin : FrameEnd}
    {r : Option (Except NetError Unit × ConnectionInbox Pre Msg)} (h : Delivers P s ms fin r) :
    observe r = fin.observed (s.inbox ++ ms) := by
  rcases h with ⟨⟨rfl, rfl⟩ | ⟨e, s', rfl, rfl, hinbox, -⟩⟩ | ⟨s', rfl, rfl, hinbox, -⟩
  · rfl
  · simp only [observe, Option.map_some, hinbox, FrameEnd.observed]
  · simp only [observe, Option.map_some, hinbox, FrameEnd.observed]

/-- Framing does not depend on how the stream is split: two splits of one
stream into chunks, fed to new inboxes with room for its messages, return the
same result with the same messages in the inbox. -/
theorem consumeAll_split_invariant (hP : Framed P) {chunks chunks' : List Bytes}
    (hsplit : chunks.flatten = chunks'.flatten) (maxMessages : Nat) (key : Option StacksPublicKey)
    {ms : List Msg} {fin : FrameEnd} (hW : Frames P key chunks.flatten ms fin) (hbound : ms.length ≤ maxMessages) :
    observe (consumeAll P chunks (new maxMessages key)) = observe (consumeAll P chunks' (new maxMessages key)) := by
  have hsettled : Frames P key [] [] (.pending []) := .last (firstFrame_short (by simp only [List.length_nil]; exact hP.hint_pos))
  have hroom : (new maxMessages key : ConnectionInbox Pre Msg).inbox.length + ms.length ≤
      (new maxMessages key : ConnectionInbox Pre Msg).inboxMaxlen := by
    simp only [new, List.length_nil, Nat.zero_add]
    exact hbound
  have h₁ := consumeAll_frames hP chunks (new maxMessages key) ms fin (fun _ h => by cases h) hsettled hW hroom
  have h₂ := consumeAll_frames hP chunks' (new maxMessages key) ms fin (fun _ h => by cases h) hsettled
    (by rw [← hsplit]; exact hW) hroom
  rw [h₁.observe_eq, h₂.observe_eq]

end ConnectionInbox

end BlockstackCore
