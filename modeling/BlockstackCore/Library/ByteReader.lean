import Mathlib

/-!
# Byte readers

The `Read` trait: a call gets a buffer, writes the bytes it read at the start
of it, leaves the rest of the buffer as it was, and returns how many it wrote,
or fails. `ByteReader σ ε` is such a reader on a state `σ`: `read s n` is what
a call with a buffer of `n` bytes returns, at most `n` bytes, and `readInto`
is the call on a given buffer. A reader may return fewer bytes than asked for
at any call.
-/

/-- A `Read` implementation on a state `σ`: a call with room for `n` bytes
returns at most `n` bytes and the state after it, or an error. -/
structure ByteReader (σ ε : Type) where
  read : σ → Nat → Except ε (List UInt8 × σ)
  length_le : ∀ {s n chunk s'}, read s n = .ok (chunk, s') → chunk.length ≤ n

namespace ByteReader

variable {σ ε : Type} (r : ByteReader σ ε)

/-- The call on a buffer: the bytes read overwrite its start, the rest of it
is left as it was. -/
def readInto (s : σ) (buf : List UInt8) : Except ε (Nat × List UInt8 × σ) :=
  match r.read s buf.length with
  | .error e => .error e
  | .ok (chunk, s') => .ok (chunk.length, chunk ++ buf.drop chunk.length, s')

/-- `impl Read for &[u8]`: copies as many bytes as fit and moves past them. -/
def sliceReader : ByteReader (List UInt8) ε where
  read s n := .ok (s.take n, s.drop n)
  length_le h := by
    cases h
    exact List.length_take_le _ _

end ByteReader
