import Mathlib

/-!
# Big-endian integers and exact reads over byte lists

A reader over an in-memory byte stream is the list of bytes not yet consumed.
`readExact` is `Read::read_exact`: it takes exactly the bytes asked for, or
fails at end of input. `beBytes w n` is `n.to_be_bytes()` for a `w`-byte
integer, and `ofBeBytes` is `from_be_bytes`. Both go through the base-256
digits of a number, least significant first, where the induction is on a
plain list.

Unsigned integers of a fixed width are kept as `Nat`; `checkedAdd` and
`checkedMul` are `checked_add` and `checked_mul`. `utf8Valid` is the
acceptance test of `str::from_utf8`: the well-formed byte sequences of
Unicode, table 3-7.
-/

namespace ByteCodec

abbrev Bytes := List UInt8

/-- The low `w` base-256 digits of `n`, least significant first. -/
def digits : Nat → Nat → Bytes
  | 0, _ => []
  | w + 1, n => UInt8.ofNat (n % 256) :: digits w (n / 256)

/-- The number whose base-256 digits, least significant first, are given. -/
def ofDigits : Bytes → Nat
  | [] => 0
  | x :: xs => x.toNat + 256 * ofDigits xs

/-- `n.to_be_bytes()` for a `w`-byte integer. -/
def beBytes (w n : Nat) : Bytes := (digits w n).reverse

/-- `from_be_bytes`. -/
def ofBeBytes (b : Bytes) : Nat := ofDigits b.reverse

@[simp] theorem length_digits (w n : Nat) : (digits w n).length = w := by
  induction w generalizing n with
  | zero => rfl
  | succ w ih => simp [digits, ih]

@[simp] theorem length_beBytes (w n : Nat) : (beBytes w n).length = w := by
  simp [beBytes]

theorem ofDigits_digits (w n : Nat) : ofDigits (digits w n) = n % 256 ^ w := by
  induction w generalizing n with
  | zero => simp [digits, ofDigits, Nat.mod_one]
  | succ w ih =>
    have low : (UInt8.ofNat (n % 256)).toNat = n % 256 := by simp
    simp only [digits, ofDigits, low, ih]
    rw [Nat.pow_succ, Nat.mul_comm (256 ^ w) 256, Nat.mod_mul]

/-- Decoding an encoding gives the number back, reduced to the width. -/
theorem ofBeBytes_beBytes (w n : Nat) : ofBeBytes (beBytes w n) = n % 256 ^ w := by
  simp [ofBeBytes, beBytes, ofDigits_digits]

theorem ofBeBytes_beBytes_of_lt {w n : Nat} (h : n < 256 ^ w) :
    ofBeBytes (beBytes w n) = n := by
  rw [ofBeBytes_beBytes, Nat.mod_eq_of_lt h]

/-- Numbers that fit the width encode to different bytes. -/
theorem beBytes_inj_of_lt {w m n : Nat} (hm : m < 256 ^ w) (hn : n < 256 ^ w)
    (h : beBytes w m = beBytes w n) : m = n := by
  rw [← ofBeBytes_beBytes_of_lt hm, ← ofBeBytes_beBytes_of_lt hn, h]

inductive ReadError where
  | unexpectedEof
  deriving DecidableEq, Repr

/-- `read_exact`: the next `n` bytes and the rest, or end of input. -/
def readExact (n : Nat) (r : Bytes) : Except ReadError (Bytes × Bytes) :=
  if n ≤ r.length then .ok (r.take n, r.drop n) else .error .unexpectedEof

theorem readExact_append {n : Nat} {a : Bytes} (b : Bytes) (h : a.length = n) :
    readExact n (a ++ b) = .ok (a, b) := by
  subst h
  simp [readExact]

theorem readExact_eq_ok {n : Nat} {r a rest : Bytes} (h : readExact n r = .ok (a, rest)) :
    a.length = n ∧ r = a ++ rest := by
  unfold readExact at h
  split at h
  · cases h
    exact ⟨by simp; omega, by simp⟩
  · cases h

/-- `checked_add` on `bits`-bit unsigned integers. -/
def checkedAdd (bits a b : Nat) : Option Nat := if a + b < 2 ^ bits then some (a + b) else none

/-- `checked_mul` on `bits`-bit unsigned integers. -/
def checkedMul (bits a b : Nat) : Option Nat := if a * b < 2 ^ bits then some (a * b) else none

theorem checkedAdd_of_lt {bits a b : Nat} (h : a + b < 2 ^ bits) :
    checkedAdd bits a b = some (a + b) := by
  simp [checkedAdd, h]

theorem checkedAdd_eq_some {bits a b c : Nat} (h : checkedAdd bits a b = some c) :
    c = a + b ∧ a + b < 2 ^ bits := by
  unfold checkedAdd at h
  split at h
  · exact ⟨(Option.some.inj h).symm, by assumption⟩
  · cases h

def isCont (b : UInt8) : Bool := 0x80 ≤ b && b ≤ 0xBF

/-- `str::from_utf8` accepts exactly the well-formed UTF-8 sequences. -/
def utf8Valid : Bytes → Bool
  | [] => true
  | b :: r1 =>
    if b ≤ 0x7F then utf8Valid r1
    else match r1 with
      | c :: r2 =>
        if 0xC2 ≤ b && b ≤ 0xDF then isCont c && utf8Valid r2
        else match r2 with
          | d :: r3 =>
            let third := isCont d &&
              (if b == 0xE0 then 0xA0 ≤ c && c ≤ 0xBF
               else if b == 0xED then 0x80 ≤ c && c ≤ 0x9F
               else 0xE1 ≤ b && b ≤ 0xEF && isCont c)
            if 0xE0 ≤ b && b ≤ 0xEF then third && utf8Valid r3
            else match r3 with
              | e :: r4 =>
                (if b == 0xF0 then 0x90 ≤ c && c ≤ 0xBF
                 else if b == 0xF4 then 0x80 ≤ c && c ≤ 0x8F
                 else 0xF1 ≤ b && b ≤ 0xF3 && isCont c) &&
                  isCont d && isCont e && utf8Valid r4
              | [] => false
          | [] => false
      | [] => false

end ByteCodec
