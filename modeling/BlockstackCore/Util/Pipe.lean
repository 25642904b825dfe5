import BlockstackCore.Library.Channel
import BlockstackCore.Library.ByteCodec

/-!
# The pipe between a message's writer and its connection

`util/pipe.rs`. `Pipe::new` joins a `PipeWrite`, into which a message is
serialized, to a `PipeRead`, from which a connection takes the bytes it
sends, by a `sync_channel(1)` of byte vectors. The writer sends each write
at once, together with whatever it could not send before, and keeps it when
the channel is full (`write_or_buffer`); `flush` waits until it can send.
The reader first returns what is left of the last vector it received
(`drain_buf`), then receives vectors until the caller's buffer is full
(`fill_buf`), and keeps the rest of the last one. A blocking reader waits in
`recv` for the writer, so that one `read` can span several writes.

The two ends run on different threads and share only the channel. `Step` is
one call of either end, or the resumption of a `read` that waits; a blocking
call is a step only once it can return. Beside the state of the code,
`PipeState` keeps three histories: the bytes of every write that returned
`Ok`, those of every read that returned `Ok`, and what the writer still held
when it was dropped. The read end stays open: it belongs to the connection
for as long as the messages are sent.
-/

namespace BlockstackCore

open ByteCodec

/-- The `io::ErrorKind`s the pipe returns. -/
inductive IoErrorKind where
  | brokenPipe
  | wouldBlock
  deriving DecidableEq, Repr

/-- `PipeRead` without its receiver: what is left of the last vector
received, from `i` on, and whether reads block. -/
structure PipeRead where
  buf : Bytes
  i : Nat
  block : Bool
  deriving DecidableEq, Repr

/-- `PipeWrite` without its sender: what it could not send yet. -/
structure PipeWrite where
  buf : Option Bytes
  deriving DecidableEq, Repr

/-- Why the loop of `fill_buf` stopped: the caller's buffer is full, the
channel is empty (`blocked`) or closed (`disconnected`); or the loop has not
stopped and waits in `recv`. -/
inductive FillEnd where
  | filled
  | blocked
  | disconnected
  | waiting
  deriving DecidableEq, Repr

/-- Where a call of `read` is: it returned, or it waits in `recv` with what
it drained and copied so far into the caller's buffer. -/
inductive ReadCall where
  | returned (result : Except IoErrorKind Bytes)
  | waiting (want : Nat) (drained copied : Bytes)
  deriving DecidableEq, Repr

/-- Where the reader thread is: between calls, or in a `read` that waits. -/
inductive ReaderPc where
  | idle
  | reading (want : Nat) (drained copied : Bytes)
  deriving DecidableEq, Repr

/-- The bytes a read returned: none for an error. -/
def okBytes : Except IoErrorKind Bytes → Bytes
  | .ok bytes => bytes
  | .error _ => []

namespace ReaderPc

/-- The bytes a waiting read has for its caller so far. -/
def held : ReaderPc → Bytes
  | .idle => []
  | .reading _ drained copied => drained ++ copied

end ReaderPc

namespace ReadCall

/-- The bytes a call returned, or has for its caller so far. -/
def held : ReadCall → Bytes
  | .returned result => okBytes result
  | .waiting _ drained copied => drained ++ copied

/-- Where the reader thread is after the call. -/
def pc : ReadCall → ReaderPc
  | .returned _ => .idle
  | .waiting want drained copied => .reading want drained copied

end ReadCall

namespace PipeRead

def new : PipeRead := ⟨[], 0, true⟩

def setNonblocking (self : PipeRead) (flag : Bool) : PipeRead := { self with block := !flag }

/-- `drain_buf`: copy into a caller's buffer of `len` bytes what is left of
the last vector, and clear the buffer once all of it is taken. -/
def drainBuf (self : PipeRead) (len : Nat) : Bytes × PipeRead :=
  if self.i < self.buf.length then
    let bufAvailable := self.buf.drop self.i
    let toCopy := if bufAvailable.length < len then bufAvailable.length else len
    let i := self.i + toCopy
    if i ≥ self.buf.length then (bufAvailable.take toCopy, { self with buf := [], i := 0 })
    else (bufAvailable.take toCopy, { self with i := i })
  else ([], self)

/-- One turn of the loop of `fill_buf` after it received `nextBytes`: copy
what fits after the `copied` bytes, and buffer the rest once the caller's
buffer is full. -/
def copyChunk (self : PipeRead) (want : Nat) (copied nextBytes : Bytes) : Bytes × PipeRead :=
  let remaining := want - copied.length
  let toCopy := if nextBytes.length < remaining then nextBytes.length else remaining
  let copied := copied ++ nextBytes.take toCopy
  if copied.length = want ∧ toCopy < nextBytes.length then
    (copied, { self with buf := self.buf ++ nextBytes.drop toCopy })
  else (copied, self)

/-- The loop of `fill_buf` into a caller's buffer of `want` bytes, of which
`copied` are filled. -/
def fillLoop (self : PipeRead) (want : Nat) (copied : Bytes) (input : SyncChannel Bytes) :
    FillEnd × Bytes × PipeRead × SyncChannel Bytes :=
  if copied.length < want then
    match _ : input.tryRecv with
    | (.ok nextBytes, input') =>
      let (copied, self) := self.copyChunk want copied nextBytes
      fillLoop self want copied input'
    | (.error .empty, input') =>
      -- a blocking reader then calls `recv`, which waits: the queue is empty
      -- and the writer is there
      if self.block then (.waiting, copied, self, input') else (.blocked, copied, self, input')
    | (.error .disconnected, input') => (.disconnected, copied, self, input')
  else (.filled, copied, self, input)
termination_by input.queue.length
decreasing_by exact SyncChannel.tryRecv_ok_length ‹_›

/-- `fill_buf`: its two `assert_eq!`s, whose failure is `none`, then the
loop from an empty caller's buffer. -/
def fillBuf (self : PipeRead) (want : Nat) (input : SyncChannel Bytes) :
    Option (FillEnd × Bytes × PipeRead × SyncChannel Bytes) :=
  if self.buf.length = 0 ∧ self.i = 0 then some (self.fillLoop want [] input) else none

/-- The end of `fill_buf` once its loop has stopped. -/
def fillResult (self : PipeRead) (stop : FillEnd) (copied : Bytes) : Except IoErrorKind Bytes :=
  if stop = .disconnected ∧ copied.length = 0 ∧ self.buf.length = 0 then .error .brokenPipe
  else if stop = .blocked ∧ copied.length = 0 ∧ self.buf.length = 0 then .error .wouldBlock
  else .ok copied

/-- The end of `read` after `fill_buf`: a broken pipe or a would-block after
something was drained is not a failure. -/
def readResult (drained : Bytes) : Except IoErrorKind Bytes → Except IoErrorKind Bytes
  | .ok filled => .ok (drained ++ filled)
  | .error e => if drained.length > 0 then .ok drained else .error e

def finishRead (self : PipeRead) (want : Nat) (drained : Bytes) (stop : FillEnd) (copied : Bytes) :
    ReadCall :=
  match stop with
  | .waiting => .waiting want drained copied
  | _ => .returned (readResult drained (self.fillResult stop copied))

/-- `read` into a caller's buffer of `len` bytes, up to its return or to the
`recv` it waits in. `none` is the panic of a failed assert in `fill_buf`. -/
def read (self : PipeRead) (len : Nat) (input : SyncChannel Bytes) :
    Option (ReadCall × PipeRead × SyncChannel Bytes) :=
  let (drained, self) := self.drainBuf len
  if drained.length = len then some (.returned (.ok drained), self, input)
  else
    match self.fillBuf (len - drained.length) input with
    | none => none
    | some (stop, copied, self, input) =>
      some (self.finishRead (len - drained.length) drained stop copied, self, input)

/-- A `read` that waits in `recv` goes on with its loop where it stopped. -/
def resume (self : PipeRead) (want : Nat) (drained copied : Bytes) (input : SyncChannel Bytes) :
    ReadCall × PipeRead × SyncChannel Bytes :=
  let (stop, copied, self, input) := self.fillLoop want copied input
  (self.finishRead want drained stop copied, self, input)

end PipeRead

namespace PipeWrite

def new : PipeWrite := ⟨none⟩

/-- `write_or_buffer`: add `buf` to what is buffered and try to send all of
it; a full channel leaves it buffered. -/
def writeOrBuffer (self : PipeWrite) (buf : Bytes) (output : SyncChannel Bytes) :
    Except IoErrorKind Nat × PipeWrite × SyncChannel Bytes :=
  let data := match self.buf with
    | none => buf
    | some tmp => tmp ++ buf
  match output.trySend data with
  | (.ok (), output) => (.ok buf.length, ⟨none⟩, output)
  | (.error (.full data), output) => (.ok buf.length, ⟨some data⟩, output)
  | (.error (.disconnected _), output) => (.error .brokenPipe, ⟨none⟩, output)

/-- `try_flush`: whether what was buffered could be sent. -/
def tryFlush (self : PipeWrite) (output : SyncChannel Bytes) :
    Except IoErrorKind Bool × PipeWrite × SyncChannel Bytes :=
  match self.buf with
  | some bytes =>
    match output.trySend bytes with
    | (.ok (), output) => (.ok true, ⟨none⟩, output)
    | (.error (.full retBytes), output) => (.ok false, ⟨some retBytes⟩, output)
    | (.error (.disconnected _), output) => (.error .brokenPipe, ⟨none⟩, output)
  | none => (.ok true, self, output)

/-- `flush`: send what is buffered, waiting for room; `none` is the wait. -/
def flush (self : PipeWrite) (output : SyncChannel Bytes) :
    Option (Except IoErrorKind Unit × PipeWrite × SyncChannel Bytes) :=
  match self.buf with
  | some bytes =>
    match output.send bytes with
    | none => none
    | some (.ok (), output) => some (.ok (), ⟨none⟩, output)
    | some (.error _, output) => some (.error .brokenPipe, ⟨none⟩, output)
  | none => some (.ok (), self, output)

end PipeWrite

/-! ### The two threads -/

structure PipeState where
  reader : PipeRead
  writer : PipeWrite
  channel : SyncChannel Bytes
  pc : ReaderPc
  written : Bytes
  delivered : Bytes
  lost : Bytes
  deriving DecidableEq, Repr

/-- `Pipe::new`: a channel of one vector between fresh ends, blocking reads. -/
def Pipe.new : PipeState := ⟨PipeRead.new, PipeWrite.new, SyncChannel.new 1, .idle, [], [], []⟩

namespace PipeState

/-- A `write` of the writer thread; the bytes of a write that returns `Ok`
count as written. -/
def write (s : PipeState) (data : Bytes) : PipeState :=
  match s.writer.writeOrBuffer data s.channel with
  | (.ok _, writer, channel) => { s with writer := writer, channel := channel, written := s.written ++ data }
  | (.error _, writer, channel) => { s with writer := writer, channel := channel }

def tryFlush (s : PipeState) : PipeState :=
  match s.writer.tryFlush s.channel with
  | (_, writer, channel) => { s with writer := writer, channel := channel }

def flush (s : PipeState) : Option PipeState :=
  match s.writer.flush s.channel with
  | none => none
  | some (_, writer, channel) => some { s with writer := writer, channel := channel }

/-- The writer thread drops its end, and with it what it had not sent. -/
def dropWriter (s : PipeState) : PipeState :=
  { s with writer := ⟨none⟩, channel := s.channel.dropSender, lost := s.lost ++ s.writer.buf.getD [] }

/-- The state after a step of the reader thread: the bytes of a read that
returns `Ok` count as delivered. -/
def afterRead (s : PipeState) : ReadCall × PipeRead × SyncChannel Bytes → PipeState
  | (.returned result, reader, channel) =>
    { s with reader := reader, channel := channel, pc := .idle, delivered := s.delivered ++ okBytes result }
  | (.waiting want drained copied, reader, channel) =>
    { s with reader := reader, channel := channel, pc := .reading want drained copied }

/-- One step of either thread. -/
inductive Step : PipeState → PipeState → Prop
  | write (s : PipeState) (data : Bytes) (hopen : s.channel.senderAlive = true) : Step s (s.write data)
  | tryFlush (s : PipeState) (hopen : s.channel.senderAlive = true) : Step s s.tryFlush
  | flush (s s' : PipeState) (hopen : s.channel.senderAlive = true) (h : s.flush = some s') : Step s s'
  | dropWriter (s : PipeState) (hopen : s.channel.senderAlive = true) : Step s s.dropWriter
  | setNonblocking (s : PipeState) (flag : Bool) (hidle : s.pc = .idle) :
      Step s { s with reader := s.reader.setNonblocking flag }
  | read (s : PipeState) (len : Nat) (r : ReadCall × PipeRead × SyncChannel Bytes) (hidle : s.pc = .idle)
      (h : s.reader.read len s.channel = some r) : Step s (s.afterRead r)
  | resume (s : PipeState) (want : Nat) (drained copied : Bytes) (hpc : s.pc = .reading want drained copied) :
      Step s (s.afterRead (s.reader.resume want drained copied s.channel))

inductive Run : PipeState → Prop
  | new : Run Pipe.new
  | step {s s' : PipeState} : Run s → Step s s' → Run s'

end PipeState

/-! ### The reader's calls -/

namespace PipeRead

/-- A reader between calls: its buffer is empty, or has bytes left past `i`. -/
def Shaped (r : PipeRead) : Prop := (r.buf = [] ∧ r.i = 0) ∨ r.i < r.buf.length

/-- What `drain_buf` did: the bytes it copied, then those it left, are those
that were left. -/
structure Drains (r : PipeRead) (len : Nat) (drained : Bytes) (r' : PipeRead) : Prop where
  bytes : drained ++ r'.buf.drop r'.i = r.buf.drop r.i
  length_eq : drained.length = min len (r.buf.length - r.i)
  shaped : r'.Shaped
  block_eq : r'.block = r.block
  emptied : drained.length < len → r'.buf = [] ∧ r'.i = 0

theorem drainBuf_drains {self : PipeRead} (hs : self.Shaped) (len : Nat) :
    Drains self len (self.drainBuf len).1 (self.drainBuf len).2 := by
  unfold drainBuf
  by_cases hi : self.i < self.buf.length
  · have hcopy : (if (self.buf.drop self.i).length < len then (self.buf.drop self.i).length else len) =
        min len (self.buf.length - self.i) := by
      rw [List.length_drop]
      split <;> omega
    simp only [if_pos hi, hcopy]
    by_cases hend : self.i + min len (self.buf.length - self.i) ≥ self.buf.length
    · -- everything left is copied, and the buffer is cleared
      have htake : (self.buf.drop self.i).take (min len (self.buf.length - self.i)) = self.buf.drop self.i :=
        List.take_of_length_le (by rw [List.length_drop]; omega)
      rw [if_pos hend, htake]
      exact ⟨by simp, by rw [List.length_drop]; omega, .inl ⟨rfl, rfl⟩, rfl, fun _ => ⟨rfl, rfl⟩⟩
    · rw [if_neg hend]
      dsimp only
      have hdrop : self.buf.drop (self.i + min len (self.buf.length - self.i)) =
          (self.buf.drop self.i).drop (min len (self.buf.length - self.i)) := by
        rw [List.drop_drop, Nat.add_comm]
      refine ⟨by rw [hdrop, List.take_append_drop], by simp, .inr (by dsimp only; omega), rfl, fun h => ?_⟩
      simp only [List.length_take, List.length_drop] at h
      omega
  · -- nothing is left: the buffer is empty
    obtain ⟨hbuf, hi0⟩ : self.buf = [] ∧ self.i = 0 := hs.resolve_right hi
    rw [if_neg hi]
    exact ⟨by simp [hbuf], by simp [hbuf], hs, rfl, fun _ => ⟨hbuf, hi0⟩⟩

variable {self self' : PipeRead} {want : Nat} {copied copied' nextBytes : Bytes}
  {input input' : SyncChannel Bytes}

/-- What one turn of the loop does, from an empty buffer: the bytes copied
and those buffered are the bytes received. -/
theorem copyChunk_spec (hbuf : self.buf = []) (hlt : copied.length < want)
    (hc : self.copyChunk want copied nextBytes = (copied', self')) :
    copied' ++ self'.buf = copied ++ nextBytes ∧ copied'.length ≤ want ∧
      (copied'.length < want → self'.buf = []) ∧ self'.i = self.i ∧ self'.block = self.block := by
  unfold copyChunk at hc
  have hcopy : (if nextBytes.length < want - copied.length then nextBytes.length else want - copied.length) =
      min nextBytes.length (want - copied.length) := by
    split <;> omega
  simp only [hcopy] at hc
  have hlen : (copied ++ nextBytes.take (min nextBytes.length (want - copied.length))).length =
      copied.length + min nextBytes.length (want - copied.length) := by
    simp
  split at hc
  · -- the buffer is full and the rest of the vector is kept
    obtain ⟨rfl, rfl⟩ := Prod.mk.inj hc
    rename_i hfull
    exact ⟨by simp [hbuf], by omega, fun h => by omega, rfl, rfl⟩
  · -- the whole vector fitted
    obtain ⟨rfl, rfl⟩ := Prod.mk.inj hc
    rename_i hnot
    have hall : min nextBytes.length (want - copied.length) = nextBytes.length := by
      by_contra hne
      exact hnot ⟨by omega, by omega⟩
    exact ⟨by rw [hbuf, hall, List.take_length, List.append_nil], by omega, fun _ => hbuf, rfl, rfl⟩

/-- What the loop of `fill_buf` did, from an empty buffer. -/
structure Fills (r : PipeRead) (want : Nat) (copied : Bytes) (input : SyncChannel Bytes)
    (stop : FillEnd) (copied' : Bytes) (r' : PipeRead) (input' : SyncChannel Bytes) : Prop where
  bytes : copied' ++ r'.buf ++ input'.queue.flatten = copied ++ input.queue.flatten
  i_eq : r'.i = r.i
  block_eq : r'.block = r.block
  channel_eq : input' = { input with queue := input'.queue }
  length_le : copied'.length ≤ want
  filled : stop = .filled → copied'.length = want
  stopped : stop ≠ .filled → input'.queue = [] ∧ r'.buf = [] ∧ copied'.length < want
  waiting : stop = .waiting → input.senderAlive = true ∧ r.block = true
  blocked : stop = .blocked → input.senderAlive = true ∧ r.block = false
  disconnected : stop = .disconnected → input.senderAlive = false

theorem fillLoop_of_ok (hlt : copied.length < want) (h : input.tryRecv = (.ok nextBytes, input'))
    (hc : self.copyChunk want copied nextBytes = (copied', self')) :
    self.fillLoop want copied input = self'.fillLoop want copied' input' := by
  rw [fillLoop, if_pos hlt]
  split
  · rename_i nb i' heq
    rw [h] at heq
    simp only [Prod.mk.injEq, Except.ok.injEq] at heq
    obtain ⟨rfl, rfl⟩ := heq
    rw [hc]
  · rename_i heq; rw [h] at heq; cases heq
  · rename_i heq; rw [h] at heq; cases heq

theorem fillLoop_of_empty (hlt : copied.length < want) (h : input.tryRecv = (.error .empty, input')) :
    self.fillLoop want copied input =
      if self.block then (.waiting, copied, self, input') else (.blocked, copied, self, input') := by
  rw [fillLoop, if_pos hlt]
  split
  · rename_i heq; rw [h] at heq; cases heq
  · rename_i heq; rw [h] at heq; cases heq; rfl
  · rename_i heq; rw [h] at heq; cases heq

theorem fillLoop_of_disconnected (hlt : copied.length < want)
    (h : input.tryRecv = (.error .disconnected, input')) :
    self.fillLoop want copied input = (.disconnected, copied, self, input') := by
  rw [fillLoop, if_pos hlt]
  split
  · rename_i heq; rw [h] at heq; cases heq
  · rename_i heq; rw [h] at heq; cases heq
  · rename_i heq; rw [h] at heq; cases heq; rfl

theorem fillLoop_of_le (hle : want ≤ copied.length) :
    self.fillLoop want copied input = (.filled, copied, self, input) := by
  rw [fillLoop, if_neg (Nat.not_lt.mpr hle)]

/-- The loop of `fill_buf`, by induction along its own recursion: each turn
takes one vector off the queue. -/
theorem fillLoop_fills (self : PipeRead) (copied : Bytes) (input : SyncChannel Bytes) (hbuf : self.buf = [])
    (hlen : copied.length ≤ want) {stop : FillEnd} {out : Bytes} {reader : PipeRead} {rest : SyncChannel Bytes}
    (h : self.fillLoop want copied input = (stop, out, reader, rest)) :
    Fills self want copied input stop out reader rest := by
  induction self, copied, input using PipeRead.fillLoop.induct want with
  | case1 self copied input hlt nextBytes input' hrecv copied' self' hc ih =>
    obtain ⟨hq, hin⟩ := SyncChannel.tryRecv_eq_ok hrecv
    obtain ⟨hbytes, hle, hrest, hi, hblock⟩ := copyChunk_spec hbuf hlt hc
    rw [fillLoop_of_ok hlt hrecv hc] at h
    have hqueue : copied ++ input.queue.flatten = copied' ++ self'.buf ++ input'.queue.flatten := by
      rw [hq, List.flatten_cons, ← List.append_assoc, ← hbytes]
    by_cases hfull : copied'.length < want
    · -- the rest of the loop starts from what this turn left
      obtain ⟨b, ii, bl, ch, le, fi, st, wa, blk, di⟩ := ih (hrest hfull) hle h
      refine ⟨?_, ii.trans hi, bl.trans hblock, ch.trans (by rw [hin]), le, fi, st, ?_, ?_, ?_⟩
      · rw [b, hqueue, hrest hfull, List.append_nil]
      · intro hw
        obtain ⟨hs, hb⟩ := wa hw
        rw [hin] at hs
        exact ⟨hs, hblock ▸ hb⟩
      · intro hw
        obtain ⟨hs, hb⟩ := blk hw
        rw [hin] at hs
        exact ⟨hs, hblock ▸ hb⟩
      · intro hw
        have hs := di hw
        rw [hin] at hs
        exact hs
    · -- this turn filled the caller's buffer: the loop stops
      rw [fillLoop_of_le (by omega)] at h
      obtain ⟨rfl, rfl, rfl, rfl⟩ : FillEnd.filled = stop ∧ copied' = out ∧ self' = reader ∧ input' = rest := by
        simpa using h
      exact ⟨hqueue.symm, hi, hblock, hin, hle, fun _ => by omega, (fun h => absurd rfl h), nofun,
        nofun, nofun⟩
  | case2 self copied input hlt input' hrecv hblock =>
    obtain ⟨hq, hs, rfl⟩ := SyncChannel.tryRecv_eq_empty hrecv
    rw [fillLoop_of_empty hlt hrecv, if_pos hblock] at h
    obtain ⟨rfl, rfl, rfl, rfl⟩ : FillEnd.waiting = stop ∧ copied = out ∧ self = reader ∧ input' = rest := by
      simpa using h
    exact ⟨by simp [hbuf, hq], rfl, rfl, rfl, hlen, nofun, fun _ => ⟨hq, hbuf, hlt⟩,
      fun _ => ⟨hs, hblock⟩, nofun, nofun⟩
  | case3 self copied input hlt input' hrecv hblock =>
    obtain ⟨hq, hs, rfl⟩ := SyncChannel.tryRecv_eq_empty hrecv
    rw [fillLoop_of_empty hlt hrecv, if_neg hblock] at h
    obtain ⟨rfl, rfl, rfl, rfl⟩ : FillEnd.blocked = stop ∧ copied = out ∧ self = reader ∧ input' = rest := by
      simpa using h
    exact ⟨by simp [hbuf, hq], rfl, rfl, rfl, hlen, nofun, fun _ => ⟨hq, hbuf, hlt⟩,
      nofun, fun _ => ⟨hs, by simpa using hblock⟩, nofun⟩
  | case4 self copied input hlt input' hrecv =>
    obtain ⟨hq, hs, rfl⟩ := SyncChannel.tryRecv_eq_disconnected hrecv
    rw [fillLoop_of_disconnected hlt hrecv] at h
    obtain ⟨rfl, rfl, rfl, rfl⟩ : FillEnd.disconnected = stop ∧ copied = out ∧ self = reader ∧ input' = rest := by
      simpa using h
    exact ⟨by simp [hbuf, hq], rfl, rfl, rfl, hlen, nofun, fun _ => ⟨hq, hbuf, hlt⟩,
      nofun, nofun, fun _ => hs⟩
  | case5 self copied input hle =>
    rw [fillLoop_of_le (by omega)] at h
    obtain ⟨rfl, rfl, rfl, rfl⟩ : FillEnd.filled = stop ∧ copied = out ∧ self = reader ∧ input = rest := by
      simpa using h
    exact ⟨by simp [hbuf], rfl, rfl, rfl, hlen, fun _ => by omega, (fun h => absurd rfl h), nofun,
      nofun, nofun⟩

/-- The reader's buffer at each point of its thread: between calls it is
`Shaped`; a read waits only in blocking mode, with the buffer emptied and
the caller's buffer not full. -/
def ReaderShape (r : PipeRead) : ReaderPc → Prop
  | .idle => r.Shaped
  | .reading want _ copied => r.buf = [] ∧ r.i = 0 ∧ r.block = true ∧ copied.length < want

theorem okBytes_readResult_error (drained : Bytes) (e : IoErrorKind) :
    okBytes (readResult drained (.error e)) = drained := by
  simp only [readResult]
  split
  · rfl
  · rename_i hd
    simp [okBytes, List.eq_nil_of_length_eq_zero (Nat.eq_zero_of_not_pos hd)]

/-- A read returns, or has for its caller, exactly the bytes it drained and
copied: `fill_buf` reports an error only when it copied nothing. -/
theorem okBytes_readResult_fillResult (drained : Bytes) (self : PipeRead) (stop : FillEnd) (out : Bytes) :
    okBytes (readResult drained (self.fillResult stop out)) = drained ++ out := by
  unfold fillResult
  split
  · rename_i h
    rw [okBytes_readResult_error, List.eq_nil_of_length_eq_zero h.2.1, List.append_nil]
  · split
    · rename_i h
      rw [okBytes_readResult_error, List.eq_nil_of_length_eq_zero h.2.1, List.append_nil]
    · rfl

theorem held_finishRead (self : PipeRead) (want : Nat) (drained : Bytes) (stop : FillEnd) (out : Bytes) :
    (self.finishRead want drained stop out).held = drained ++ out := by
  unfold finishRead
  split
  · rfl
  · exact okBytes_readResult_fillResult drained self stop out

/-- What a call of `read` did to the reader and the channel. -/
structure Reads (held : Bytes) (input : SyncChannel Bytes) (call : ReadCall) (self' : PipeRead)
    (input' : SyncChannel Bytes) : Prop where
  bytes : call.held ++ self'.buf.drop self'.i ++ input'.queue.flatten = held ++ input.queue.flatten
  channel_eq : input' = { input with queue := input'.queue }
  shape : ReaderShape self' call.pc

/-- The end of a read after the loop of `fill_buf`, from an empty buffer. -/
theorem finishRead_reads (hi : self.i = 0) {stop : FillEnd} {out : Bytes} {reader : PipeRead}
    {rest : SyncChannel Bytes} (hf : Fills self want copied input stop out reader rest) (drained : Bytes) :
    Reads (drained ++ copied) input (reader.finishRead want drained stop out) reader rest := by
  have hi' : reader.i = 0 := hf.i_eq.trans hi
  refine ⟨?_, hf.channel_eq, ?_⟩
  · have hb := hf.bytes
    simp only [List.append_assoc] at hb
    simp only [held_finishRead, hi', List.drop_zero, List.append_assoc, hb]
  · unfold finishRead
    split
    · obtain ⟨-, hb, hl⟩ := hf.stopped nofun
      exact ⟨hb, hi', hf.block_eq.trans (hf.waiting rfl).2, hl⟩
    · -- the read returned: a buffer is left only when the caller's is full
      show reader.Shaped
      rcases hb : reader.buf with _ | ⟨b, bs⟩
      · exact .inl ⟨hb, hi'⟩
      · exact .inr (by rw [hi', hb]; simp)

/-- `read` from a reader between calls, in its two ways: `drain_buf` alone
fills the caller's buffer, or it empties the reader's and the loop of
`fill_buf` runs for the rest. The asserts of `fill_buf` hold on the way. -/
theorem read_spec {self : PipeRead} (hs : self.Shaped) (len : Nat) (input : SyncChannel Bytes) :
    ∃ drained r, Drains self len drained r ∧
      (drained.length = len ∧ self.read len input = some (.returned (.ok drained), r, input) ∨
        drained.length < len ∧ r.buf = [] ∧ r.i = 0 ∧ ∃ stop out reader rest,
          Fills r (len - drained.length) [] input stop out reader rest ∧
          self.read len input = some (reader.finishRead (len - drained.length) drained stop out, reader, rest)) := by
  have hd := drainBuf_drains hs len
  unfold read
  rcases hdr : self.drainBuf len with ⟨drained, r⟩
  rw [hdr] at hd
  dsimp only at hd ⊢
  refine ⟨drained, r, hd, ?_⟩
  by_cases hfull : drained.length = len
  · exact .inl ⟨hfull, by rw [if_pos hfull]⟩
  · have hlt : drained.length < len := by
      have := hd.length_eq
      omega
    obtain ⟨hbuf, hi⟩ := hd.emptied hlt
    rcases hfl : r.fillLoop (len - drained.length) [] input with ⟨stop, out, reader, rest⟩
    refine .inr ⟨hlt, hbuf, hi, stop, out, reader, rest, fillLoop_fills r [] input hbuf (Nat.zero_le _) hfl, ?_⟩
    rw [if_neg hfull, fillBuf, if_pos ⟨by simp [hbuf], hi⟩, hfl]

/-- `read`, from a reader between calls. -/
theorem read_reads {self : PipeRead} (hs : self.Shaped) (len : Nat) (input : SyncChannel Bytes) :
    ∃ call self' input', self.read len input = some (call, self', input') ∧
      Reads (self.buf.drop self.i) input call self' input' := by
  obtain ⟨drained, r, hd, ⟨-, hread⟩ | ⟨-, hbuf, hi, stop, out, reader, rest, hf, hread⟩⟩ :=
    read_spec hs len input
  · -- the buffer alone filled the caller's
    refine ⟨_, _, _, hread, ⟨?_, rfl, hd.shaped⟩⟩
    simp only [ReadCall.held, okBytes]
    rw [hd.bytes]
  · obtain ⟨hbytes, hch, hshape⟩ := finishRead_reads hi hf drained
    refine ⟨_, _, _, hread, ⟨?_, hch, hshape⟩⟩
    rw [hbytes, ← hd.bytes, hbuf, hi, List.drop_zero, List.append_nil]

/-- `resume`, from a read that waits: the loop of `fill_buf` goes on from
the bytes it had copied. -/
theorem resume_spec {self : PipeRead} {want : Nat} {drained copied : Bytes}
    (hshape : ReaderShape self (.reading want drained copied)) (input : SyncChannel Bytes) :
    ∃ stop out reader rest, Fills self want copied input stop out reader rest ∧
      self.resume want drained copied input = (reader.finishRead want drained stop out, reader, rest) := by
  obtain ⟨hbuf, -, -, hlt⟩ := hshape
  unfold resume
  rcases hfl : self.fillLoop want copied input with ⟨stop, out, reader, rest⟩
  exact ⟨stop, out, reader, rest, fillLoop_fills self copied input hbuf hlt.le hfl, rfl⟩

theorem resume_reads {self : PipeRead} {want : Nat} {drained copied : Bytes}
    (hshape : ReaderShape self (.reading want drained copied)) {call : ReadCall} {self' : PipeRead}
    (h : self.resume want drained copied input = (call, self', input')) :
    Reads (drained ++ copied) input call self' input' := by
  obtain ⟨stop, out, reader, rest, hf, hres⟩ := resume_spec hshape input
  rw [hres] at h
  obtain ⟨rfl, rfl, rfl⟩ := h
  exact finishRead_reads hshape.2.1 hf drained

/-- A read that returns `Ok` after a loop that was neither blocked nor
disconnected returns a full buffer. -/
theorem finishRead_eq_ok {self reader : PipeRead} {input rest : SyncChannel Bytes} {stop : FillEnd}
    {out bytes : Bytes} (hf : Fills self want copied input stop out reader rest) (hblock : self.block = true)
    (hsender : input.senderAlive = true) (h : reader.finishRead want drained stop out = .returned (.ok bytes)) :
    bytes = drained ++ out ∧ out.length = want := by
  cases stop with
  | waiting => cases h
  | blocked => exact absurd hblock (by simp [(hf.blocked rfl).2])
  | disconnected => exact absurd hsender (by simp [hf.disconnected rfl])
  | filled =>
    simp only [finishRead, fillResult, reduceCtorEq, false_and, if_false, readResult,
      ReadCall.returned.injEq, Except.ok.injEq] at h
    exact ⟨h.symm, hf.filled rfl⟩

/-- A disconnected loop from an empty buffer ends `read` with what it
drained and copied, and with a broken pipe only when that is nothing. -/
theorem readResult_fillResult_disconnected {reader : PipeRead} (hbuf : reader.buf = []) (drained out : Bytes) :
    readResult drained (reader.fillResult .disconnected out) =
      if drained ++ out = [] then .error .brokenPipe else .ok (drained ++ out) := by
  by_cases hout : out = []
  · subst hout
    have hres : reader.fillResult .disconnected [] = .error .brokenPipe := by
      simp [fillResult, hbuf]
    rw [hres, List.append_nil]
    by_cases hd : drained = []
    · simp [readResult, hd]
    · have hpos : drained.length > 0 := List.length_pos_of_ne_nil hd
      simp [readResult, hd, hpos]
  · have hres : reader.fillResult .disconnected out = .ok out := by
      simp [fillResult, hout]
    rw [hres]
    simp [readResult, hout]

end PipeRead

/-! ### The writer's calls -/

namespace PipeWrite

variable {self self' : PipeWrite} {output output' : SyncChannel Bytes}

/-- What the writer holds to send: what it buffers. -/
def pending (self : PipeWrite) : Bytes := self.buf.getD []

/-- While the reader is there, a write is accepted whole, and the vectors
queued, then what is buffered, are what they were with `buf` after them. -/
theorem writeOrBuffer_spec (hr : output.receiverAlive = true) {buf : Bytes} {r : Except IoErrorKind Nat}
    (h : self.writeOrBuffer buf output = (r, self', output')) :
    r = .ok buf.length ∧ output'.queue.flatten ++ self'.pending = output.queue.flatten ++ self.pending ++ buf ∧
      output' = { output with queue := output'.queue } := by
  unfold writeOrBuffer at h
  have hdata : (match self.buf with | none => buf | some tmp => tmp ++ buf) = self.pending ++ buf := by
    cases hb : self.buf <;> simp [pending, hb]
  rw [hdata] at h
  dsimp only at h
  rcases SyncChannel.trySend_of_receiverAlive (a := self.pending ++ buf) hr with ⟨-, hs⟩ | ⟨-, hs⟩ <;>
    rw [hs] at h <;> obtain ⟨rfl, rfl, rfl⟩ := h
  · exact ⟨rfl, by simp [pending], rfl⟩
  · exact ⟨rfl, by simp [pending], rfl⟩

theorem tryFlush_spec (hr : output.receiverAlive = true) {r : Except IoErrorKind Bool}
    (h : self.tryFlush output = (r, self', output')) :
    output'.queue.flatten ++ self'.pending = output.queue.flatten ++ self.pending ∧
      output' = { output with queue := output'.queue } := by
  unfold tryFlush at h
  cases hbuf : self.buf with
  | none =>
    rw [hbuf] at h
    obtain ⟨rfl, rfl, rfl⟩ := h
    exact ⟨rfl, rfl⟩
  | some bytes =>
    rw [hbuf] at h
    dsimp only at h
    rcases SyncChannel.trySend_of_receiverAlive (a := bytes) hr with ⟨-, hs⟩ | ⟨-, hs⟩ <;>
      rw [hs] at h <;> obtain ⟨rfl, rfl, rfl⟩ := h
    · exact ⟨by simp [pending, hbuf], rfl⟩
    · exact ⟨by simp [pending, hbuf], rfl⟩

theorem flush_spec (hr : output.receiverAlive = true) {r : Except IoErrorKind Unit}
    (h : self.flush output = some (r, self', output')) :
    output'.queue.flatten ++ self'.pending = output.queue.flatten ++ self.pending ∧
      output' = { output with queue := output'.queue } := by
  unfold flush at h
  cases hbuf : self.buf with
  | none =>
    rw [hbuf] at h
    obtain ⟨rfl, rfl, rfl⟩ := Option.some.inj h
    exact ⟨rfl, rfl⟩
  | some bytes =>
    rw [hbuf] at h
    dsimp only at h
    cases hsend : output.send bytes with
    | none => rw [hsend] at h; cases h
    | some res =>
      obtain ⟨-, rfl⟩ := SyncChannel.send_of_receiverAlive hr hsend
      rw [hsend] at h
      obtain ⟨rfl, rfl, rfl⟩ := Option.some.inj h
      exact ⟨by simp [pending, hbuf], rfl⟩

end PipeWrite

/-! ### No byte is lost, duplicated or reordered -/

namespace PipeState

/-- The bytes written and not read yet, in the order in which the reader
will return them: those a waiting read has for its caller, what is left of
the last vector received, the vectors queued, and what the writer buffers. -/
def inFlight (s : PipeState) : Bytes :=
  s.pc.held ++ s.reader.buf.drop s.reader.i ++ s.channel.queue.flatten ++ s.writer.pending

/-- The invariant of the pipe: the bytes read, then those in flight, then
those dropped with the writer, are the bytes written. -/
structure Valid (s : PipeState) : Prop where
  accounts : s.delivered ++ s.inFlight ++ s.lost = s.written
  receiverAlive : s.channel.receiverAlive = true
  open_lost : s.channel.senderAlive = true → s.lost = []
  closed : s.channel.senderAlive = false → s.writer.buf = none
  shape : PipeRead.ReaderShape s.reader s.pc

theorem valid_new : Valid Pipe.new := ⟨rfl, rfl, fun _ => rfl, nofun, .inl ⟨rfl, rfl⟩⟩

variable {s s' : PipeState}

/-- A call of the writer that keeps the vectors queued and the bytes
buffered, in order, with `data` after them keeps the invariant. -/
theorem valid_of_writer (hv : s.Valid) (hopen : s.channel.senderAlive = true) {w : PipeWrite}
    {c : SyncChannel Bytes} {data : Bytes}
    (hbytes : c.queue.flatten ++ w.pending = s.channel.queue.flatten ++ s.writer.pending ++ data)
    (hc : c = { s.channel with queue := c.queue }) :
    Valid { s with writer := w, channel := c, written := s.written ++ data } := by
  have hlost := hv.open_lost hopen
  have hsender : c.senderAlive = true := by rw [hc]; exact hopen
  refine ⟨?_, by rw [hc]; exact hv.receiverAlive, fun _ => hlost, fun h => absurd h (by simp [hsender]), hv.shape⟩
  calc s.delivered ++ (s.pc.held ++ s.reader.buf.drop s.reader.i ++ c.queue.flatten ++ w.pending) ++ s.lost
      = s.delivered ++ (s.pc.held ++ s.reader.buf.drop s.reader.i) ++ (c.queue.flatten ++ w.pending) := by
        rw [hlost]
        simp only [List.append_nil, List.append_assoc]
    _ = s.delivered ++ (s.pc.held ++ s.reader.buf.drop s.reader.i) ++
          (s.channel.queue.flatten ++ s.writer.pending) ++ data := by
        rw [hbytes]
        simp only [List.append_assoc]
    _ = s.written ++ data := by
        rw [← hv.accounts, hlost]
        simp only [inFlight, List.append_nil, List.append_assoc]

theorem valid_write (hv : s.Valid) (hopen : s.channel.senderAlive = true) (data : Bytes) :
    (s.write data).Valid := by
  unfold write
  rcases hw : s.writer.writeOrBuffer data s.channel with ⟨r, w, c⟩
  obtain ⟨rfl, hbytes, hc⟩ := PipeWrite.writeOrBuffer_spec hv.receiverAlive hw
  exact valid_of_writer hv hopen hbytes hc

/-- A writer's call that sends what it buffers: nothing new is written. -/
theorem valid_of_flush (hv : s.Valid) (hopen : s.channel.senderAlive = true) {w : PipeWrite}
    {c : SyncChannel Bytes} (hbytes : c.queue.flatten ++ w.pending = s.channel.queue.flatten ++ s.writer.pending)
    (hc : c = { s.channel with queue := c.queue }) :
    Valid { s with writer := w, channel := c } := by
  have hbytes' : c.queue.flatten ++ w.pending = s.channel.queue.flatten ++ s.writer.pending ++ [] := by
    rw [hbytes, List.append_nil]
  have hv' := valid_of_writer hv hopen hbytes' hc
  simpa only [List.append_nil] using hv'

theorem valid_tryFlush (hv : s.Valid) (hopen : s.channel.senderAlive = true) : s.tryFlush.Valid := by
  unfold tryFlush
  rcases hw : s.writer.tryFlush s.channel with ⟨r, w, c⟩
  obtain ⟨hbytes, hc⟩ := PipeWrite.tryFlush_spec hv.receiverAlive hw
  exact valid_of_flush hv hopen hbytes hc

theorem valid_flush (hv : s.Valid) (hopen : s.channel.senderAlive = true) (h : s.flush = some s') : s'.Valid := by
  unfold flush at h
  rcases hw : s.writer.flush s.channel with _ | ⟨r, w, c⟩
  · rw [hw] at h
    cases h
  · rw [hw] at h
    cases h
    obtain ⟨hbytes, hc⟩ := PipeWrite.flush_spec hv.receiverAlive hw
    exact valid_of_flush hv hopen hbytes hc

/-- Dropping the writer moves what it buffers from in flight to lost. -/
theorem valid_dropWriter (hv : s.Valid) (hopen : s.channel.senderAlive = true) : s.dropWriter.Valid := by
  have hlost := hv.open_lost hopen
  refine ⟨?_, hv.receiverAlive, nofun, fun _ => rfl, hv.shape⟩
  have hacc := hv.accounts
  simp only [dropWriter, inFlight, PipeWrite.pending, hlost, List.append_nil, List.nil_append,
    Option.getD_none, SyncChannel.queue_dropSender, List.append_assoc] at hacc ⊢
  exact hacc

theorem valid_setNonblocking (hv : s.Valid) (hidle : s.pc = .idle) (flag : Bool) :
    Valid { s with reader := s.reader.setNonblocking flag } := by
  refine ⟨hv.accounts, hv.receiverAlive, hv.open_lost, hv.closed, ?_⟩
  have hshape := hv.shape
  rw [hidle] at hshape ⊢
  exact hshape

/-- A step of the reader that hands its caller, and keeps, the bytes it held
and those queued keeps the invariant. -/
theorem valid_afterRead (hv : s.Valid) {call : ReadCall} {r : PipeRead} {c : SyncChannel Bytes}
    (hr : PipeRead.Reads (s.pc.held ++ s.reader.buf.drop s.reader.i) s.channel call r c) :
    (s.afterRead (call, r, c)).Valid := by
  have hbytes := hr.bytes
  have hc := hr.channel_eq
  have hsender : c.senderAlive = s.channel.senderAlive := by rw [hc]
  -- what the reader held and what was queued are now what the call holds,
  -- what is left in the reader's buffer and what is still queued
  have hrest : s.delivered ++ (call.held ++ r.buf.drop r.i ++ c.queue.flatten) ++ (s.writer.pending ++ s.lost) =
      s.written := by
    rw [hbytes, ← hv.accounts]
    simp only [inFlight, List.append_assoc]
  cases call with
  | returned result =>
    refine ⟨?_, by rw [hc]; exact hv.receiverAlive, fun h => hv.open_lost (hsender ▸ h),
      fun h => hv.closed (hsender ▸ h), hr.shape⟩
    simp only [afterRead, inFlight, ReaderPc.held, List.nil_append]
    rw [← hrest]
    simp only [ReadCall.held, List.append_assoc]
  | waiting want drained copied =>
    refine ⟨?_, by rw [hc]; exact hv.receiverAlive, fun h => hv.open_lost (hsender ▸ h),
      fun h => hv.closed (hsender ▸ h), hr.shape⟩
    simp only [afterRead, inFlight, ReaderPc.held]
    rw [← hrest]
    simp only [ReadCall.held, List.append_assoc]

theorem valid_read (hv : s.Valid) (hidle : s.pc = .idle) {len : Nat} {r : ReadCall × PipeRead × SyncChannel Bytes}
    (h : s.reader.read len s.channel = some r) : (s.afterRead r).Valid := by
  have hshape := hv.shape
  rw [hidle] at hshape
  obtain ⟨call, reader, c, hcall, hreads⟩ := PipeRead.read_reads hshape len s.channel
  rw [hcall] at h
  cases h
  refine valid_afterRead hv ?_
  rw [hidle]
  exact hreads

theorem valid_resume (hv : s.Valid) {want : Nat} {drained copied : Bytes} (hpc : s.pc = .reading want drained copied) :
    (s.afterRead (s.reader.resume want drained copied s.channel)).Valid := by
  have hshape := hv.shape
  rw [hpc] at hshape
  rcases hres : s.reader.resume want drained copied s.channel with ⟨call, r, c⟩
  have hreads := PipeRead.resume_reads hshape hres
  obtain ⟨hbuf, hi, -, -⟩ := hshape
  refine valid_afterRead hv ?_
  rw [hpc, hbuf, hi]
  simpa only [ReaderPc.held, List.drop_nil, List.append_nil] using hreads

theorem Step.valid (h : Step s s') (hv : s.Valid) : s'.Valid := by
  cases h with
  | write data hopen => exact valid_write hv hopen data
  | tryFlush hopen => exact valid_tryFlush hv hopen
  | flush _ hopen hflush => exact valid_flush hv hopen hflush
  | dropWriter hopen => exact valid_dropWriter hv hopen
  | setNonblocking flag hidle => exact valid_setNonblocking hv hidle flag
  | read len r hidle hread => exact valid_read hv hidle hread
  | resume want drained copied hpc => exact valid_resume hv hpc

theorem Run.valid (h : Run s) : s.Valid := by
  induction h with
  | new => exact valid_new
  | step _ hstep ih => exact hstep.valid ih

/-! ### What every run of the two threads does -/

/-- No byte is lost, duplicated or reordered: in every reachable state the
bytes the reads returned, then the bytes in flight, then those dropped with
the writer, are the bytes of the writes, and nothing is dropped while the
writer is open. -/
theorem run_delivered_inFlight_lost_eq_written (h : Run s) :
    s.delivered ++ s.inFlight ++ s.lost = s.written ∧ (s.channel.senderAlive = true → s.lost = []) :=
  ⟨h.valid.accounts, h.valid.open_lost⟩

/-- One write of three bytes, sent at once into the empty channel. -/
theorem written_after_one_write :
    (Pipe.new.write [1, 2, 3]).delivered ++ (Pipe.new.write [1, 2, 3]).inFlight ++ (Pipe.new.write [1, 2, 3]).lost =
        (Pipe.new.write [1, 2, 3]).written ∧
      ((Pipe.new.write [1, 2, 3]).channel.senderAlive = true → (Pipe.new.write [1, 2, 3]).lost = []) :=
  run_delivered_inFlight_lost_eq_written (.step .new (.write Pipe.new [1, 2, 3] rfl))

/-- The asserts of `fill_buf` hold: in every reachable state a `read`
between calls does not panic. -/
theorem run_read_ne_none (h : Run s) (hidle : s.pc = .idle) (len : Nat) : s.reader.read len s.channel ≠ none := by
  have hshape := h.valid.shape
  rw [hidle] at hshape
  obtain ⟨call, reader, c, hread, -⟩ := PipeRead.read_reads hshape len s.channel
  rw [hread]
  exact Option.some_ne_none _

theorem read_after_one_write_ne_none :
    (Pipe.new.write [1, 2, 3]).reader.read 2 (Pipe.new.write [1, 2, 3]).channel ≠ none :=
  run_read_ne_none (.step .new (.write Pipe.new [1, 2, 3] rfl)) rfl 2

/-- While the writer is open, a blocking `read` that returns `Ok` fills the
caller's buffer, whether it returns at once or after waiting in `recv`. -/
theorem run_blocking_read_fills (h : Run s) (hopen : s.channel.senderAlive = true) :
    (∀ len bytes r c, s.pc = .idle → s.reader.block = true →
      s.reader.read len s.channel = some (.returned (.ok bytes), r, c) → bytes.length = len) ∧
    (∀ want drained copied bytes r c, s.pc = .reading want drained copied →
      s.reader.resume want drained copied s.channel = (.returned (.ok bytes), r, c) →
      bytes.length = drained.length + want) := by
  have hv := h.valid
  constructor
  · intro len bytes r c hidle hblock hread
    have hshape := hv.shape
    rw [hidle] at hshape
    obtain ⟨drained, r₁, hd, ⟨hfull, hr⟩ | ⟨hlt, -, -, stop, out, reader, rest, hf, hr⟩⟩ :=
      PipeRead.read_spec hshape len s.channel
    · -- the buffer alone filled the caller's
      rw [hr] at hread
      simp only [Option.some.injEq, Prod.mk.injEq, ReadCall.returned.injEq, Except.ok.injEq] at hread
      rw [← hread.1, hfull]
    · rw [hr] at hread
      simp only [Option.some.injEq, Prod.mk.injEq] at hread
      obtain ⟨rfl, hout⟩ := PipeRead.finishRead_eq_ok hf (hd.block_eq.trans hblock) hopen hread.1
      rw [List.length_append, hout]
      omega
  · intro want drained copied bytes r c hpc hres
    have hshape := hv.shape
    rw [hpc] at hshape
    obtain ⟨stop, out, reader, rest, hf, hr⟩ := PipeRead.resume_spec hshape s.channel
    rw [hr] at hres
    simp only [Prod.mk.injEq] at hres
    obtain ⟨rfl, hout⟩ := PipeRead.finishRead_eq_ok hf hshape.2.2.1 hopen hres.1
    rw [List.length_append, hout]

theorem blocking_read_after_one_write_fills :
    (∀ len bytes r c, (Pipe.new.write [1, 2, 3]).pc = .idle → (Pipe.new.write [1, 2, 3]).reader.block = true →
      (Pipe.new.write [1, 2, 3]).reader.read len (Pipe.new.write [1, 2, 3]).channel =
        some (.returned (.ok bytes), r, c) → bytes.length = len) ∧
    (∀ want drained copied bytes r c, (Pipe.new.write [1, 2, 3]).pc = .reading want drained copied →
      (Pipe.new.write [1, 2, 3]).reader.resume want drained copied (Pipe.new.write [1, 2, 3]).channel =
        (.returned (.ok bytes), r, c) → bytes.length = drained.length + want) :=
  run_blocking_read_fills (.step .new (.write Pipe.new [1, 2, 3] rfl)) rfl

/-- Once the writer is gone, a `read` returns at once the next bytes in
flight, as many as the caller's buffer holds, and a broken pipe only when
none are left. -/
theorem run_read_after_close (h : Run s) (hclosed : s.channel.senderAlive = false) (hidle : s.pc = .idle)
    {len : Nat} (hlen : 0 < len) :
    ∃ r c, s.reader.read len s.channel =
      some (.returned (if s.inFlight = [] then .error .brokenPipe else .ok (s.inFlight.take len)), r, c) := by
  have hv := h.valid
  have hshape := hv.shape
  rw [hidle] at hshape
  -- with the writer gone, what is in flight is the reader's buffer and the queue
  have hin : s.inFlight = s.reader.buf.drop s.reader.i ++ s.channel.queue.flatten := by
    simp [inFlight, hidle, ReaderPc.held, PipeWrite.pending, hv.closed hclosed]
  obtain ⟨drained, r₁, hd, ⟨hfull, hr⟩ | ⟨hlt, hbuf, -, stop, out, reader, rest, hf, hr⟩⟩ :=
    PipeRead.read_spec hshape len s.channel
  · -- the buffer alone fills the caller's
    have hne : drained ≠ [] := List.ne_nil_of_length_pos (by omega)
    have hin' : s.inFlight = drained ++ (r₁.buf.drop r₁.i ++ s.channel.queue.flatten) := by
      rw [hin, ← hd.bytes, List.append_assoc]
    refine ⟨r₁, s.channel, ?_⟩
    rw [hr, hin', if_neg (by simp [hne]), List.take_left' hfull]
  · have hall : drained = s.reader.buf.drop s.reader.i := by
      rw [← hd.bytes, hbuf, List.drop_nil, List.append_nil]
    have hbytes := hf.bytes
    rw [List.nil_append] at hbytes
    refine ⟨reader, rest, hr.trans ?_⟩
    cases stop with
    | waiting => exact absurd (hf.waiting rfl).1 (by simp [hclosed])
    | blocked => exact absurd (hf.blocked rfl).1 (by simp [hclosed])
    | filled =>
      -- the queue fills the rest of the caller's buffer
      have hout := hf.filled rfl
      have hq : out = (s.channel.queue.flatten).take (len - drained.length) := by
        rw [← hbytes, List.append_assoc, List.take_left' hout]
      have hne : s.inFlight ≠ [] := by
        rw [hin, ← hall]
        intro hnil
        have := congrArg List.length hnil
        rw [List.length_append, ← hbytes, List.length_append, List.length_append, hout] at this
        simp at this
        omega
      rw [if_neg hne, hin, ← hall, List.take_append, List.take_of_length_le (by omega : drained.length ≤ len), ← hq]
      simp only [PipeRead.finishRead, PipeRead.fillResult, reduceCtorEq, false_and, if_false, PipeRead.readResult]
    | disconnected =>
      -- the queue is emptied into the caller's buffer, which it does not fill
      obtain ⟨hrest, hrbuf, hlt⟩ := hf.stopped nofun
      have hq : out = s.channel.queue.flatten := by
        rw [← hbytes, hrest, hrbuf]
        simp
      have hin' : s.inFlight = drained ++ out := by rw [hin, ← hall, hq]
      have htake : (drained ++ out).take len = drained ++ out :=
        List.take_of_length_le (by rw [List.length_append]; omega)
      simp only [PipeRead.finishRead, PipeRead.readResult_fillResult_disconnected hrbuf, hin', htake]

/-- After one write and the writer's drop, a read of two bytes returns the
first two. -/
theorem read_after_close_returns_rest :
    ∃ r c, (Pipe.new.write [1, 2, 3]).dropWriter.reader.read 2 (Pipe.new.write [1, 2, 3]).dropWriter.channel =
      some (.returned (if (Pipe.new.write [1, 2, 3]).dropWriter.inFlight = [] then .error .brokenPipe
        else .ok ((Pipe.new.write [1, 2, 3]).dropWriter.inFlight.take 2)), r, c) :=
  run_read_after_close (.step (.step .new (.write Pipe.new [1, 2, 3] rfl)) (.dropWriter _ rfl)) rfl rfl
    (by decide)

end PipeState

end BlockstackCore
