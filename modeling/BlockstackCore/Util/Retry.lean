import BlockstackCore.Library.ByteReader
import BlockstackCore.Library.ByteCodec

/-!
# Stream adapters: `BoundReader` and `RetryReader`

`util/retry.rs`. A `BoundReader` passes reads on to the reader it wraps and
stops at `max_len` bytes; a `RetryReader` keeps a copy of what was read so
that the caller can go back (`set_position`) and read it again.

Both are readers over any underlying reader `r`, which may return fewer bytes
than asked for at any call. `io::Error` is modelled by its message.

A `BoundReader` cuts each read to what is left of `max_len`, and `num_read`
counts the bytes that came back. A `RetryReader` appends to its copy the whole
slice it passed to the underlying reader, not only the bytes that came back, so
a short read leaves in the copy whatever the caller's buffer held past them,
and a replay returns those bytes as if they had been read
(`retryReader_replays_unread_byte`).
-/

namespace BlockstackCore

open ByteReader ByteCodec

/-- `std::io::Error`, by its message. -/
structure IoError where
  message : String
  deriving DecidableEq, Repr

/-- `BoundReader`. What it has read never exceeds `max_len`. -/
structure BoundReader (σ : Type) where
  fd : σ
  maxLen : Nat
  readSoFar : Nat
  readSoFar_le : readSoFar ≤ maxLen

namespace BoundReader

variable {σ : Type} (r : ByteReader σ IoError)

def fromReader (reader : σ) (maxLen : Nat) : BoundReader σ := ⟨reader, maxLen, 0, Nat.zero_le _⟩

def numRead (self : BoundReader σ) : Nat := self.readSoFar

/-- `read`: a read that would take the count past `max_len` is cut to what is
left, and the count goes up by what the underlying reader returned. -/
def read (self : BoundReader σ) (n : Nat) : Except IoError (List UInt8 × BoundReader σ) :=
  match hadd : checkedAdd 64 self.readSoFar n with
  | none => .error ⟨"Read would overflow u64"⟩
  | some intendedRead =>
    let maxRead := if intendedRead > self.maxLen then self.maxLen - self.readSoFar else n
    match hread : r.read self.fd maxRead with
    | .error e => .error e
    | .ok (chunk, fd) =>
      .ok (chunk, ⟨fd, self.maxLen, self.readSoFar + chunk.length, by
        have hchunk := r.length_le hread
        have hintended := (checkedAdd_eq_some hadd).1
        have hle := self.readSoFar_le
        simp only [maxRead] at hchunk
        split at hchunk <;> omega⟩)

/-- What one call of `read` did: it asked the underlying reader for what was
asked of it, cut to what is left when that would pass `max_len`, and
returned what came back. -/
theorem read_eq_ok {self self' : BoundReader σ} {n : Nat} {chunk : List UInt8}
    (h : read r self n = .ok (chunk, self')) :
    ∃ m, m = (if self.readSoFar + n > self.maxLen then self.maxLen - self.readSoFar else n) ∧
      r.read self.fd m = .ok (chunk, self'.fd) ∧ self'.readSoFar = self.readSoFar + chunk.length ∧
      self'.maxLen = self.maxLen := by
  unfold read at h
  split at h
  · cases h
  · rename_i intendedRead hadd
    obtain ⟨rfl, -⟩ := checkedAdd_eq_some hadd
    dsimp only at h
    split at h
    · cases h
    · rename_i chunk' fd hread
      cases h
      exact ⟨_, rfl, hread, rfl, rfl⟩

/-- A `BoundReader` is itself a reader. -/
def reader : ByteReader (BoundReader σ) IoError where
  read := read r
  length_le h := by
    obtain ⟨m, rfl, hread, -⟩ := read_eq_ok r h
    have hchunk := r.length_le hread
    split at hchunk <;> omega

end BoundReader

/-- `RetryReader`: the wrapped reader, the copy of what was read through it,
and the position of the next byte to replay. -/
structure RetryReader (σ : Type) where
  fd : σ
  buf : List UInt8
  i : Nat

namespace RetryReader

variable {σ ε : Type} (r : ByteReader σ ε)

def new (fd : σ) : RetryReader σ := ⟨fd, [], 0⟩

def setPosition (self : RetryReader σ) (offset : Nat) : RetryReader σ :=
  if offset ≤ self.buf.length then { self with i := offset } else { self with i := self.buf.length }

/-- `read_and_buffer`: the whole slice goes into the copy, and the position
moves past all of it, however many bytes the underlying reader returned. -/
def readAndBuffer (self : RetryReader σ) (buf : List UInt8) : Except ε (Nat × List UInt8 × RetryReader σ) :=
  match r.readInto self.fd buf with
  | .error e => .error e
  | .ok (nr, buf, fd) => .ok (nr, buf, ⟨fd, self.buf ++ buf, self.i + buf.length⟩)

/-- `read`: replay from the copy first, then read the rest of the buffer
from the underlying reader. -/
def read (self : RetryReader σ) (buf : List UInt8) : Except ε (Nat × List UInt8 × RetryReader σ) :=
  let (nrBuf, buf, self) :=
    if self.i < self.buf.length then
      -- consume from inner buffer: `(&self.buf[self.i..]).read(buf)`
      let bytesCopied := min (self.buf.length - self.i) buf.length
      (bytesCopied, (self.buf.drop self.i).take bytesCopied ++ buf.drop bytesCopied,
        { self with i := self.i + bytesCopied })
    else (0, buf, self)
  match readAndBuffer r self (buf.drop nrBuf) with
  | .error e => .error e
  | .ok (nr, rest, self) => .ok (nr + nrBuf, buf.take nrBuf ++ rest, self)

variable {r}

/-- A reader over `stream`, read once with the buffer `[0, 0]` and again
after `set_position(0)` with the same buffer. -/
def readTwice (stream : List UInt8) : Except ε ((Nat × List UInt8) × (Nat × List UInt8)) :=
  match read sliceReader (new stream) [0, 0] with
  | .error e => .error e
  | .ok (nr, buf, self) =>
    match read sliceReader (self.setPosition 0) [0, 0] with
    | .error e => .error e
    | .ok (nr', buf', _) => .ok ((nr, buf), (nr', buf'))

/-- Over the one-byte stream `[7]`, the first read returns one byte. The
replay after `set_position(0)` returns two, `[7, 0]`: the `0` is the
caller's own buffer, which the first read copied in. -/
theorem retryReader_replays_unread_byte :
    (readTwice [7] : Except IoError _) = .ok ((1, [7, 0]), (2, [7, 0])) := by
  decide

end RetryReader

end BlockstackCore
