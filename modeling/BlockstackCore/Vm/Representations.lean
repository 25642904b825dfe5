import Mathlib

/-!
# Guarded names

`ClarityName` and `ContractName` are strings that passed a length check and a
regular expression when they were built (`guarded_string!` in
`vm/representations.rs`). Both expressions accept only ASCII, so a name is
kept as its bytes, and the expressions are written out over bytes.
-/

namespace BlockstackCore

def MAX_STRING_LEN : Nat := 128

def isAsciiAlpha (c : UInt8) : Bool := (65 ≤ c && c ≤ 90) || (97 ≤ c && c ≤ 122)

def isAsciiDigit (c : UInt8) : Bool := 48 ≤ c && c ≤ 57

/-- The bytes of an ASCII name. -/
def ascii (s : String) : List UInt8 := s.toList.map fun c => UInt8.ofNat c.toNat

/-- `^[a-zA-Z]([a-zA-Z0-9]|[-_!?+<>=/*])*$|^[-+=/*]$|^[<>]=?$` -/
def clarityNameRegex : List UInt8 → Bool
  | [] => false
  | c :: rest =>
    (isAsciiAlpha c && rest.all fun d =>
        isAsciiAlpha d || isAsciiDigit d || [45, 95, 33, 63, 43, 60, 62, 61, 47, 42].contains d) ||
      (rest.isEmpty && [45, 43, 61, 47, 42].contains c) ||
      ([60, 62].contains c && (rest.isEmpty || rest == [61]))

/-- `^[a-zA-Z]([a-zA-Z0-9]|[-_])*$|^__transient$` -/
def contractNameRegex : List UInt8 → Bool
  | [] => false
  | c :: rest =>
    (isAsciiAlpha c && rest.all fun d => isAsciiAlpha d || isAsciiDigit d || [45, 95].contains d) ||
      (c :: rest) == [95, 95, 116, 114, 97, 110, 115, 105, 101, 110, 116]

/-- The check in `TryFrom<String>`: at most `MAX_STRING_LEN` bytes, then the expression. -/
def guardedNameOk (regex : List UInt8 → Bool) (s : List UInt8) : Bool :=
  decide (s.length ≤ MAX_STRING_LEN) && regex s

structure ClarityName where
  bytes : List UInt8
  valid : guardedNameOk clarityNameRegex bytes = true
  deriving DecidableEq, Hashable, Repr

structure ContractName where
  bytes : List UInt8
  valid : guardedNameOk contractNameRegex bytes = true
  deriving DecidableEq, Hashable, Repr

/-- `ClarityName::try_from`. -/
def ClarityName.tryFrom (s : List UInt8) : Option ClarityName :=
  if h : guardedNameOk clarityNameRegex s = true then some ⟨s, h⟩ else none

/-- `ContractName::try_from`. -/
def ContractName.tryFrom (s : List UInt8) : Option ContractName :=
  if h : guardedNameOk contractNameRegex s = true then some ⟨s, h⟩ else none

@[simp] theorem ClarityName.tryFrom_bytes (n : ClarityName) : ClarityName.tryFrom n.bytes = some n := by
  simp [ClarityName.tryFrom, n.valid]

theorem ClarityName.tryFrom_eq_some {s : List UInt8} {n : ClarityName}
    (h : ClarityName.tryFrom s = some n) : n.bytes = s := by
  unfold ClarityName.tryFrom at h
  split at h
  · cases h
    rfl
  · cases h

theorem ClarityName.bytes_injective : Function.Injective ClarityName.bytes := by
  intro a b h
  cases a
  cases b
  cases h
  rfl

/-- Names are ordered as the strings they are (`derive(Ord)` over `String`):
byte-wise lexicographically. -/
instance : LinearOrder ClarityName :=
  LinearOrder.lift' (fun n => n.bytes.map UInt8.toNat)
    (List.map_injective_iff.mpr (fun _ _ h => UInt8.toNat_inj.mp h) |>.comp
      ClarityName.bytes_injective)

end BlockstackCore
