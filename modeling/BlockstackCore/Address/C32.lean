import BlockstackCore.Library.ByteCodec
import BlockstackCore.Library.Outcome
import BlockstackCore.Library.Radix

/-!
# Crockford base-32 addresses

`address/c32.rs` writes a byte string as its big-endian number in base 32,
most significant digit first, over the alphabet `C32_CHARACTERS`, after one
`0` character per leading zero byte. `c32_check_encode` puts a version
character in front and a four-byte checksum, the start of a double SHA-256,
behind the data; `c32_address` puts an `S` in front of that.

SHA-256 is a parameter, and so is the Unicode upper-casing of
`str::to_uppercase`, character by character (`upper`). A Rust `&str` is its
list of characters: `len()` counts UTF-8 bytes, and `&s[1..]` and
`split_at(1)` cut at a byte offset and panic inside a character
(`strSplitAt`).
-/

namespace BlockstackCore

namespace Address

open ByteCodec

/-- The errors of `address::Error` that the c32 functions return. -/
inductive Error where
  | invalidCrockford32
  | invalidVersion (version : UInt8)
  | badChecksum (computed expected : Nat)
  deriving DecidableEq, Repr

def C32_CHARACTERS : List Char :=
  ['0', '1', '2', '3', '4', '5', '6', '7', '8', '9', 'A', 'B', 'C', 'D', 'E', 'F', 'G', 'H', 'J', 'K',
    'M', 'N', 'P', 'Q', 'R', 'S', 'T', 'V', 'W', 'X', 'Y', 'Z']

/-- `c32_chars[v]`; every index the code takes is below 32. -/
def c32Char (v : Nat) : Char := C32_CHARACTERS.getD v '0'

/-- `str::len`: the length in UTF-8 bytes. -/
def strLen (s : List Char) : Nat := (s.map Char.utf8Size).sum

/-- `str::split_at(mid)`, with `none` where it panics: at a byte offset
inside a character or past the end. -/
def strSplitAt : List Char → Nat → Option (List Char × List Char)
  | s, 0 => some ([], s)
  | [], _ + 1 => none
  | c :: s, mid + 1 =>
    if mid + 1 < c.utf8Size then none
    else (strSplitAt s (mid + 1 - c.utf8Size)).map fun (a, b) => (c :: a, b)

/-- The loop state of `c32_encode`: the characters pushed so far and the
`carry_bits` low bits of the next digit. -/
structure EncodeState where
  result : List Char
  carry : Nat
  carryBits : Nat

/-- One byte of `c32_encode`'s loop, which reads the bytes least significant
first. -/
def encodeStep (st : EncodeState) (currentValue : UInt8) : EncodeState :=
  let lowBitsToTake := 5 - st.carryBits
  let lowBits := currentValue.toNat % 2 ^ lowBitsToTake
  let c32Value := lowBits * 2 ^ st.carryBits + st.carry
  let result := st.result ++ [c32Char c32Value]
  let carryBits := 8 + st.carryBits - 5
  let carry := currentValue.toNat / 2 ^ (8 - carryBits)
  if 5 ≤ carryBits then ⟨result ++ [c32Char (carry % 2 ^ 5)], carry / 2 ^ 5, carryBits - 5⟩
  else ⟨result, carry, carryBits⟩

def c32Encode (inputBytes : Bytes) : List Char :=
  let st := inputBytes.reverse.foldl encodeStep ⟨[], 0, 0⟩
  let result := if 0 < st.carryBits then st.result ++ [c32Char st.carry] else st.result
  -- the pops of `result` while it ends in `c32_chars[0]`
  let result := result.rdropWhile (· == '0')
  let result := result ++ List.replicate (inputBytes.takeWhile (· == 0)).length '0'
  result.reverse

example : c32Encode [0x01, 0x00] = ['8', '0'] := by decide

example : c32Encode [0x00, 0x01] = ['0', '1'] := by decide

/-- `str::replace` of one character by another. -/
def replaceChar (pattern replacement c : Char) : Char := if c = pattern then replacement else c

variable (upper : Char → List Char)

def c32Normalize (inputStr : List Char) : List Char :=
  (((inputStr.flatMap upper).map (replaceChar 'O' '0')).map (replaceChar 'L' '1')).map
    (replaceChar 'I' '1')

/-- The loop state of `c32_decode`: the bytes pushed so far and a `u16`
carry of `carry_bits` bits. -/
structure DecodeState where
  result : Bytes
  carry : Nat
  carryBits : Nat

/-- One digit of `c32_decode`'s loop, least significant first. -/
def decodeStep (st : DecodeState) (current5bit : Nat) : DecodeState :=
  let carry := st.carry + current5bit * 2 ^ st.carryBits
  let carryBits := st.carryBits + 5
  if 8 ≤ carryBits then ⟨st.result ++ [UInt8.ofNat (carry % 2 ^ 8)], carry / 2 ^ 8, carryBits - 8⟩
  else ⟨st.result, carry, carryBits⟩

def c32Decode (inputStr : List Char) : Except Error Bytes :=
  let iterC32DigitsOpts := (c32Normalize upper inputStr).reverse.map fun x => C32_CHARACTERS.idxOf? x
  let iterC32Digits := iterC32DigitsOpts.filterMap id
  if iterC32Digits.length ≠ iterC32DigitsOpts.length then .error .invalidCrockford32
  else
    let st := iterC32Digits.foldl decodeStep ⟨[], 0, 0⟩
    let result := if 0 < st.carryBits then st.result ++ [UInt8.ofNat st.carry] else st.result
    let result := result.rdropWhile (· == 0)
    -- the leading zeros are counted on the string as given, not normalized
    let result := result ++ List.replicate (inputStr.takeWhile (· == '0')).length 0
    .ok result.reverse

example : c32Decode (fun c => [c.toUpper]) ['0', '1'] = .ok [0x00, 0x01] := by decide

/-- A SHA-256 digest: 32 bytes. -/
structure Sha256Digest where
  bytes : Bytes
  length_bytes : bytes.length = 32

variable (sha256 : Bytes → Sha256Digest)

def doubleSha256Checksum (data : Bytes) : Bytes := (sha256 (sha256 data).bytes).bytes.take 4

def c32CheckEncode (version : UInt8) (data : Bytes) : Except Error (List Char) :=
  if 32 ≤ version then .error (.invalidVersion version)
  else
    let checkData := version :: data
    let checksum := doubleSha256Checksum sha256 checkData
    let encodingData := data ++ checksum
    let c32String := c32Encode encodingData
    let versionChar := c32Char version.toNat
    .ok (versionChar :: c32String)

/-- A checksum as the `u32` that `BadChecksum` reports, little-endian. -/
def checksumU32 (sum : Bytes) : Nat :=
  (sum.getD 0 0).toNat ||| (sum.getD 1 0).toNat <<< 8 ||| (sum.getD 2 0).toNat <<< 16 |||
    (sum.getD 3 0).toNat <<< 24

def c32CheckDecode (checkDataUnsanitized : List Char) : Outcome Error (UInt8 × Bytes) :=
  if strLen checkDataUnsanitized < 2 then .err .invalidCrockford32
  else do
    let checkData := c32Normalize upper checkDataUnsanitized
    let (version, data) ← Outcome.expect (strSplitAt checkData 1)
    let dataSumBytes ← Outcome.ofExcept (c32Decode upper data)
    if dataSumBytes.length < 5 then .err .invalidCrockford32
    else
      let (dataBytes, expectedSum) := dataSumBytes.splitAt (dataSumBytes.length - 4)
      let checkData ← Outcome.ofExcept (c32Decode upper version)
      let checkData := checkData ++ dataBytes
      let computedSum := doubleSha256Checksum sha256 checkData
      if computedSum ≠ expectedSum then
        .err (.badChecksum (checksumU32 computedSum) (checksumU32 expectedSum))
      else
        let version ← Outcome.expect checkData.head?
        pure (version, dataBytes)

def c32AddressDecode (c32AddressStr : List Char) : Outcome Error (UInt8 × Bytes) :=
  if strLen c32AddressStr ≤ 5 then .err .invalidCrockford32
  else do
    let (_, rest) ← Outcome.expect (strSplitAt c32AddressStr 1)
    c32CheckDecode upper sha256 rest

def c32Address (version : UInt8) (data : Bytes) : Except Error (List Char) := do
  let c32String ← c32CheckEncode sha256 version data
  pure ('S' :: c32String)


section Alphabet

theorem idxOf_c32Char {d : Nat} (hd : d < 32) : C32_CHARACTERS.idxOf? (c32Char d) = some d := by
  have h : ∀ d : Fin 32, C32_CHARACTERS.idxOf? (c32Char d) = some d.val := by decide
  exact h ⟨d, hd⟩

theorem c32Char_mem {d : Nat} (hd : d < 32) : c32Char d ∈ C32_CHARACTERS := by
  have h : ∀ d : Fin 32, c32Char d ∈ C32_CHARACTERS := by decide
  exact h ⟨d, hd⟩

theorem c32Char_beq_zero {d : Nat} (hd : d < 32) : (c32Char d == '0') = (d == 0) := by
  have h : ∀ d : Fin 32, (c32Char d == '0') = (d.val == 0) := by decide
  exact h ⟨d, hd⟩

theorem utf8Size_c32Char {d : Nat} (hd : d < 32) : (c32Char d).utf8Size = 1 := by
  have h : ∀ d : Fin 32, (c32Char d).utf8Size = 1 := by decide
  exact h ⟨d, hd⟩

/-- The alphabet has no `O`, `L` or `I`, so normalizing leaves it alone. -/
theorem replaceChars_c32Char {d : Nat} (hd : d < 32) :
    replaceChar 'I' '1' (replaceChar 'L' '1' (replaceChar 'O' '0' (c32Char d))) = c32Char d := by
  have h : ∀ d : Fin 32,
      replaceChar 'I' '1' (replaceChar 'L' '1' (replaceChar 'O' '0' (c32Char d))) = c32Char d := by decide
  exact h ⟨d, hd⟩

end Alphabet

section EncodeLoop

/-- The loop of `c32_encode` after the bytes `xs`, least significant first:
it has pushed base-32 digits, and they and the carry stand for the number of
`xs`. -/
structure EncodeInv (xs : Bytes) (st : EncodeState) : Prop where
  carryBits_lt : st.carryBits < 5
  carry_lt : st.carry < 2 ^ st.carryBits
  digits : ∃ ds : List Nat, (∀ d ∈ ds, d < 32) ∧ st.result = ds.map c32Char ∧
    5 * ds.length + st.carryBits = 8 * xs.length ∧
    Nat.ofDigits 32 ds + st.carry * 32 ^ ds.length = Nat.ofDigits 256 (xs.map UInt8.toNat)

theorem encodeInv_init : EncodeInv [] ⟨[], 0, 0⟩ :=
  ⟨by decide, by decide, [], by simp, rfl, rfl, rfl⟩

/-- The first digit pushed for a byte `x` is the low digit of
`carry + x * 2 ^ k`: the low `5 - k` bits of `x` above the `k`-bit carry. -/
theorem lowDigit_eq {k carry x : Nat} (hk : k ≤ 5) (hc : carry < 2 ^ k) :
    x % 2 ^ (5 - k) * 2 ^ k + carry = (carry + x * 2 ^ k) % 32 ∧
      x / 2 ^ (5 - k) = (carry + x * 2 ^ k) / 32 := by
  have hm : 2 ^ (5 - k) * 2 ^ k = 32 := by rw [← pow_add, Nat.sub_add_cancel hk]; norm_num
  have hsplit : carry + x * 2 ^ k = (x % 2 ^ (5 - k) * 2 ^ k + carry) + 32 * (x / 2 ^ (5 - k)) := by
    conv_lhs => rw [← Nat.mod_add_div x (2 ^ (5 - k))]
    rw [← hm]
    ring
  have hlow : x % 2 ^ (5 - k) * 2 ^ k + carry < 32 := by
    have h1 : (x % 2 ^ (5 - k) + 1) * 2 ^ k ≤ 2 ^ (5 - k) * 2 ^ k :=
      Nat.mul_le_mul_right _ (Nat.mod_lt _ (by positivity))
    rw [hm, Nat.add_mul, one_mul] at h1
    omega
  rw [hsplit]
  generalize x % 2 ^ (5 - k) * 2 ^ k + carry = a at hlow ⊢
  omega

theorem EncodeInv.step {xs : Bytes} {st : EncodeState} (h : EncodeInv xs st) (x : UInt8) :
    EncodeInv (xs ++ [x]) (encodeStep st x) := by
  obtain ⟨hk, hc, ds, hds, hres, hlen, hval⟩ := h
  -- the byte enters above the carry, at the place `2 ^ (8 * xs.length)`
  have hplace : 256 ^ xs.length = 2 ^ st.carryBits * 32 ^ ds.length := by
    rw [show (256 : Nat) = 2 ^ 8 by norm_num, show (32 : Nat) = 2 ^ 5 by norm_num, ← pow_mul, ← pow_mul,
      ← pow_add]
    congr 1
    omega
  have hV : Nat.ofDigits 32 ds + (st.carry + x.toNat * 2 ^ st.carryBits) * 32 ^ ds.length =
      Nat.ofDigits 256 ((xs ++ [x]).map UInt8.toNat) := by
    rw [List.map_append, Nat.ofDigits_append, List.map_singleton, Nat.ofDigits_singleton, List.length_map,
      ← hval, hplace]
    ring
  have hu : st.carry + x.toNat * 2 ^ st.carryBits < 2 ^ (st.carryBits + 8) := by
    have hx : x.toNat < 256 := x.toNat_lt
    have h1 : (x.toNat + 1) * 2 ^ st.carryBits ≤ 256 * 2 ^ st.carryBits := Nat.mul_le_mul_right _ hx
    rw [pow_add]
    nlinarith
  obtain ⟨hd1, hc1⟩ := lowDigit_eq (x := x.toNat) hk.le hc
  have hexp : 8 - (8 + st.carryBits - 5) = 5 - st.carryBits := by omega
  generalize st.carry + x.toNat * 2 ^ st.carryBits = u at hV hu hd1 hc1
  have hV1 := Radix.ofDigits_concat_carry 32 ds (u % 32) (u / 32)
  rw [Nat.mod_add_div, hV] at hV1
  simp only [encodeStep, hexp, hd1, hc1, hres, Nat.reducePow]
  split_ifs with h5
  · -- the byte's bits reach a second digit
    have hV2 := Radix.ofDigits_concat_carry 32 (ds ++ [u % 32]) (u / 32 % 32) (u / 32 / 32)
    rw [Nat.mod_add_div, hV1] at hV2
    refine ⟨(by omega : 8 + st.carryBits - 5 - 5 < 5), ?_, ds ++ [u % 32] ++ [u / 32 % 32], ?_, by simp, ?_,
      hV2⟩
    · rw [Nat.div_div_eq_div_mul, Nat.div_lt_iff_lt_mul (by positivity)]
      calc u < 2 ^ (st.carryBits + 8) := hu
        _ = 2 ^ (8 + st.carryBits - 5 - 5) * (32 * 32) := by
          rw [show (32 * 32 : Nat) = 2 ^ 10 by norm_num, ← pow_add]
          congr 1
          omega
    · intro d hd
      simp only [List.mem_append, List.mem_singleton] at hd
      rcases hd with (hd | rfl) | rfl
      · exact hds d hd
      · exact Nat.mod_lt _ (by norm_num)
      · exact Nat.mod_lt _ (by norm_num)
    · simp only [List.length_append, List.length_singleton]
      omega
  · refine ⟨(by omega : 8 + st.carryBits - 5 < 5), ?_, ds ++ [u % 32], ?_, by simp, ?_, hV1⟩
    · rw [Nat.div_lt_iff_lt_mul (by positivity)]
      calc u < 2 ^ (st.carryBits + 8) := hu
        _ = 2 ^ (8 + st.carryBits - 5) * 32 := by
          rw [show (32 : Nat) = 2 ^ 5 by norm_num, ← pow_add]
          congr 1
          omega
    · intro d hd
      simp only [List.mem_append, List.mem_singleton] at hd
      rcases hd with hd | rfl
      · exact hds d hd
      · exact Nat.mod_lt _ (by norm_num)
    · simp only [List.length_append, List.length_singleton]
      omega

theorem EncodeInv.run {xs : Bytes} {st : EncodeState} (h : EncodeInv xs st) (ys : Bytes) :
    EncodeInv (xs ++ ys) (ys.foldl encodeStep st) := by
  induction ys generalizing xs st with
  | nil => simpa using h
  | cons y ys ih =>
    rw [List.foldl_cons, ← List.singleton_append, ← List.append_assoc]
    exact ih (h.step y)

/-- After the last push of the carry, the digits alone stand for the
number. -/
theorem EncodeInv.finish {xs : Bytes} {st : EncodeState} (h : EncodeInv xs st) :
    ∃ ds : List Nat, (∀ d ∈ ds, d < 32) ∧
      (if 0 < st.carryBits then st.result ++ [c32Char st.carry] else st.result) = ds.map c32Char ∧
      Nat.ofDigits 32 ds = Nat.ofDigits 256 (xs.map UInt8.toNat) := by
  obtain ⟨hk, hc, ds, hds, hres, -, hval⟩ := h
  split_ifs with hpos
  · have hlast : st.carry < 32 :=
      hc.trans_le ((Nat.pow_le_pow_right (by norm_num) (by omega : st.carryBits ≤ 5)).trans (by norm_num))
    refine ⟨ds ++ [st.carry], ?_, by simp [hres], ?_⟩
    · intro d hd
      rcases List.mem_append.mp hd with hd | hd
      · exact hds d hd
      · rw [List.mem_singleton.mp hd]
        exact hlast
    · rw [Nat.ofDigits_append, Nat.ofDigits_singleton, ← hval]
      ring
  · have hzero : st.carry = 0 := by
      rw [show st.carryBits = 0 by omega] at hc
      omega
    exact ⟨ds, hds, hres, by rw [← hval, hzero, Nat.zero_mul, Nat.add_zero]⟩

end EncodeLoop

section DecodeLoop

/-- The loop of `c32_decode` after the digits `ds`, least significant first:
the bytes it has pushed and the carry stand for the number of `ds`. -/
structure DecodeInv (ds : List Nat) (st : DecodeState) : Prop where
  carryBits_lt : st.carryBits < 8
  carry_lt : st.carry < 2 ^ st.carryBits
  length : 8 * st.result.length + st.carryBits = 5 * ds.length
  value : Nat.ofDigits 256 (st.result.map UInt8.toNat) + st.carry * 256 ^ st.result.length = Nat.ofDigits 32 ds

theorem decodeInv_init : DecodeInv [] ⟨[], 0, 0⟩ := ⟨by decide, by decide, rfl, rfl⟩

theorem DecodeInv.step {ds : List Nat} {st : DecodeState} (h : DecodeInv ds st) {d : Nat} (hd : d < 32) :
    DecodeInv (ds ++ [d]) (decodeStep st d) := by
  obtain ⟨hk, hc, hlen, hval⟩ := h
  -- the digit enters above the carry, at the place `2 ^ (5 * ds.length)`
  have hplace : 32 ^ ds.length = 2 ^ st.carryBits * 256 ^ st.result.length := by
    rw [show (256 : Nat) = 2 ^ 8 by norm_num, show (32 : Nat) = 2 ^ 5 by norm_num, ← pow_mul, ← pow_mul,
      ← pow_add]
    congr 1
    omega
  have hV : Nat.ofDigits 256 (st.result.map UInt8.toNat) +
      (st.carry + d * 2 ^ st.carryBits) * 256 ^ st.result.length = Nat.ofDigits 32 (ds ++ [d]) := by
    rw [Nat.ofDigits_append, Nat.ofDigits_singleton, ← hval, hplace]
    ring
  have hu : st.carry + d * 2 ^ st.carryBits < 2 ^ (st.carryBits + 5) := by
    have h1 : (d + 1) * 2 ^ st.carryBits ≤ 32 * 2 ^ st.carryBits := Nat.mul_le_mul_right _ hd
    rw [pow_add]
    nlinarith
  simp only [decodeStep, Nat.reducePow]
  generalize st.carry + d * 2 ^ st.carryBits = u at hV hu ⊢
  split_ifs with h8
  · -- a whole byte is ready
    have hbyte : (UInt8.ofNat (u % 256)).toNat = u % 256 := by simp
    have hV1 : Nat.ofDigits 256 ((st.result ++ [UInt8.ofNat (u % 256)]).map UInt8.toNat) +
        u / 256 * 256 ^ (st.result ++ [UInt8.ofNat (u % 256)]).length = Nat.ofDigits 32 (ds ++ [d]) := by
      have h := Radix.ofDigits_concat_carry 256 (st.result.map UInt8.toNat) (u % 256) (u / 256)
      rw [Nat.mod_add_div, List.length_map, hV] at h
      rw [List.map_append, List.map_singleton, hbyte, ← h]
      simp
    refine ⟨(by omega : st.carryBits + 5 - 8 < 8), ?_, ?_, hV1⟩
    · rw [Nat.div_lt_iff_lt_mul (by positivity)]
      calc u < 2 ^ (st.carryBits + 5) := hu
        _ = 2 ^ (st.carryBits + 5 - 8) * 256 := by
          rw [show (256 : Nat) = 2 ^ 8 by norm_num, ← pow_add]
          congr 1
          omega
    · simp only [List.length_append, List.length_singleton]
      omega
  · refine ⟨(by omega : st.carryBits + 5 < 8), hu, ?_, hV⟩
    simp only [List.length_append, List.length_singleton]
    omega

theorem DecodeInv.run {ds : List Nat} {st : DecodeState} (h : DecodeInv ds st) (es : List Nat)
    (hes : ∀ e ∈ es, e < 32) : DecodeInv (ds ++ es) (es.foldl decodeStep st) := by
  induction es generalizing ds st with
  | nil => simpa using h
  | cons e es ih =>
    rw [List.foldl_cons, ← List.singleton_append, ← List.append_assoc]
    exact ih (h.step (hes e (by simp))) fun e' he' => hes e' (by simp [he'])

/-- After the last push of the carry, the bytes alone stand for the
number. -/
theorem DecodeInv.finish {ds : List Nat} {st : DecodeState} (h : DecodeInv ds st) :
    Nat.ofDigits 256
        ((if 0 < st.carryBits then st.result ++ [UInt8.ofNat st.carry] else st.result).map UInt8.toNat) =
      Nat.ofDigits 32 ds := by
  obtain ⟨hk, hc, -, hval⟩ := h
  split_ifs with hpos
  · have hlast : st.carry < 256 :=
      hc.trans_le ((Nat.pow_le_pow_right (by norm_num) (by omega : st.carryBits ≤ 8)).trans (by norm_num))
    have hbyte : (UInt8.ofNat st.carry).toNat = st.carry := by
      rw [UInt8.toNat_ofNat', Nat.mod_eq_of_lt hlast]
    rw [List.map_append, List.map_singleton, hbyte, Nat.ofDigits_append, Nat.ofDigits_singleton, ← hval,
      List.length_map]
    ring
  · have hzero : st.carry = 0 := by
      rw [show st.carryBits = 0 by omega] at hc
      omega
    rw [← hval, hzero, Nat.zero_mul, Nat.add_zero]

end DecodeLoop

section Spec

theorem c32Char_zero : c32Char 0 = '0' := rfl

theorem rdropWhile_map_c32Char {ds : List Nat} (hds : ∀ d ∈ ds, d < 32) :
    (ds.map c32Char).rdropWhile (· == '0') = (ds.rdropWhile (· == 0)).map c32Char := by
  rw [Radix.rdropWhile_map]
  congr 1
  exact Radix.rdropWhile_congr fun d hd => c32Char_beq_zero (hds d hd)

theorem length_takeWhile_map_c32Char {ds : List Nat} (hds : ∀ d ∈ ds, d < 32) :
    ((ds.map c32Char).takeWhile (· == '0')).length = (ds.takeWhile (· == 0)).length := by
  induction ds with
  | nil => rfl
  | cons d ds ih =>
    have hd := hds d (by simp)
    rw [List.map_cons, List.takeWhile_cons, List.takeWhile_cons, c32Char_beq_zero hd]
    split_ifs
    · simp only [List.length_cons, ih fun e he => hds e (by simp [he])]
    · rfl

/-- Bytes read as a number and written back as bytes lose their zeros at the
most significant end. -/
theorem digits_ofDigits_bytes (bs : Bytes) :
    (Nat.digits 256 (Nat.ofDigits 256 (bs.map UInt8.toNat))).map UInt8.ofNat = bs.rdropWhile (· == 0) := by
  have hzero : ((· == 0) ∘ UInt8.toNat) = fun x : UInt8 => x == 0 := by
    funext x
    simp [← UInt8.toNat_inj]
  have hlt : ∀ n ∈ bs.map UInt8.toNat, n < 256 := by
    intro n hn
    obtain ⟨x, -, rfl⟩ := List.mem_map.mp hn
    exact x.toNat_lt
  rw [Radix.digits_ofDigits_eq_rdropWhile (by norm_num) _ hlt, Radix.rdropWhile_map,
    hzero, List.map_map]
  conv_rhs => rw [← List.map_id (bs.rdropWhile (· == 0))]
  congr 1
  funext x
  simp

/-- `c32_encode` is the base-32 numeral of the big-endian number of its
input, after one `0` per leading zero byte. -/
theorem c32Encode_eq (inputBytes : Bytes) :
    c32Encode inputBytes = (List.replicate (inputBytes.takeWhile (· == 0)).length 0 ++
      (Nat.digits 32 (Nat.ofDigits 256 (inputBytes.reverse.map UInt8.toNat))).reverse).map c32Char := by
  have hrun : EncodeInv inputBytes.reverse (inputBytes.reverse.foldl encodeStep ⟨[], 0, 0⟩) := by
    simpa using encodeInv_init.run inputBytes.reverse
  obtain ⟨ds, hds, hres, hval⟩ := hrun.finish
  unfold c32Encode
  simp only
  rw [hres, rdropWhile_map_c32Char hds, ← Radix.digits_ofDigits_eq_rdropWhile (by norm_num) ds hds, hval]
  simp [List.map_reverse, c32Char_zero]

/-- A case map that keeps the alphabet leaves its strings alone. -/
theorem c32Normalize_map_c32Char (hupper : ∀ c ∈ C32_CHARACTERS, upper c = [c]) {ds : List Nat}
    (hds : ∀ d ∈ ds, d < 32) : c32Normalize upper (ds.map c32Char) = ds.map c32Char := by
  have hflat : (ds.map c32Char).flatMap upper = ds.map c32Char := by
    induction ds with
    | nil => rfl
    | cons d ds ih =>
      rw [List.map_cons, List.flatMap_cons, hupper _ (c32Char_mem (hds d (by simp))),
        ih fun e he => hds e (by simp [he])]
      rfl
  rw [c32Normalize, hflat]
  simp only [List.map_map]
  exact List.map_congr_left fun d hd => replaceChars_c32Char (hds d hd)

/-- `c32_decode` of a string of alphabet characters, whatever the case map,
as long as it keeps the alphabet. -/
theorem c32Decode_map_c32Char (hupper : ∀ c ∈ C32_CHARACTERS, upper c = [c]) (ds : List Nat)
    (hds : ∀ d ∈ ds, d < 32) :
    c32Decode upper (ds.map c32Char) = .ok (List.replicate (ds.takeWhile (· == 0)).length 0 ++
      ((Nat.digits 256 (Nat.ofDigits 32 ds.reverse)).map UInt8.ofNat).reverse) := by
  have hnorm := c32Normalize_map_c32Char upper hupper hds
  have hopts : (ds.map c32Char).reverse.map (fun x => C32_CHARACTERS.idxOf? x) = ds.reverse.map some := by
    rw [← List.map_reverse, List.map_map]
    exact List.map_congr_left fun d hd => idxOf_c32Char (hds d (List.mem_reverse.mp hd))
  have hrun : DecodeInv ds.reverse (ds.reverse.foldl decodeStep ⟨[], 0, 0⟩) := by
    simpa using decodeInv_init.run ds.reverse fun d hd => hds d (List.mem_reverse.mp hd)
  have hfilter : (ds.reverse.map some).filterMap id = ds.reverse := by simp
  unfold c32Decode
  simp only
  rw [hnorm, hopts, hfilter, List.length_map, if_neg fun h => h rfl, ← digits_ofDigits_bytes, hrun.finish,
    length_takeWhile_map_c32Char hds]
  simp

/-- `c32_decode` undoes `c32_encode`, for every byte string. -/
theorem c32Decode_c32Encode (hupper : ∀ c ∈ C32_CHARACTERS, upper c = [c]) (inputBytes : Bytes) :
    c32Decode upper (c32Encode inputBytes) = .ok inputBytes := by
  have hdigits : ∀ d ∈ List.replicate (inputBytes.takeWhile (· == 0)).length 0 ++
      (Nat.digits 32 (Nat.ofDigits 256 (inputBytes.reverse.map UInt8.toNat))).reverse, d < 32 := by
    intro d hd
    rcases List.mem_append.mp hd with hd | hd
    · rw [List.eq_of_mem_replicate hd]
      norm_num
    · exact Nat.digits_lt_base (by norm_num) (List.mem_reverse.mp hd)
  rw [c32Encode_eq, c32Decode_map_c32Char upper hupper _ hdigits]
  -- the leading zeros are counted back exactly
  have htake : (List.replicate (inputBytes.takeWhile (· == 0)).length 0 ++
      (Nat.digits 32 (Nat.ofDigits 256 (inputBytes.reverse.map UInt8.toNat))).reverse).takeWhile (· == 0) =
      List.replicate (inputBytes.takeWhile (· == 0)).length 0 := by
    rw [List.takeWhile_append, if_pos (by simp), Radix.takeWhile_reverse_digits, List.append_nil]
  rw [htake, List.length_replicate, List.reverse_append, List.reverse_reverse, List.reverse_replicate,
    Nat.ofDigits_append_replicate_zero, Nat.ofDigits_digits, digits_ofDigits_bytes, List.rdropWhile_reverse,
    List.reverse_reverse]
  congr 1
  conv_rhs => rw [← List.takeWhile_append_dropWhile (p := (· == 0)) (l := inputBytes)]
  congr 1
  exact (List.eq_replicate_iff.mpr ⟨rfl, fun x hx => by simpa using List.mem_takeWhile_imp hx⟩).symm

/-- `c32_encode` writes at least one character per byte. -/
theorem length_le_c32Encode (inputBytes : Bytes) : inputBytes.length ≤ (c32Encode inputBytes).length := by
  -- the significant bytes are the base-256 digits of the number
  have hsig : (inputBytes.dropWhile (· == 0)).length =
      (Nat.digits 256 (Nat.ofDigits 256 (inputBytes.reverse.map UInt8.toNat))).length := by
    have h := congrArg List.length (digits_ofDigits_bytes inputBytes.reverse)
    rw [List.length_map, List.rdropWhile_reverse, List.length_reverse] at h
    exact h.symm
  -- and a number has at least as many base-32 digits as base-256 digits
  have hdig : (Nat.digits 256 (Nat.ofDigits 256 (inputBytes.reverse.map UInt8.toNat))).length ≤
      (Nat.digits 32 (Nat.ofDigits 256 (inputBytes.reverse.map UInt8.toNat))).length := by
    rw [Nat.digits_length_le_iff (by norm_num)]
    calc _ < 32 ^ (Nat.digits 32 (Nat.ofDigits 256 (inputBytes.reverse.map UInt8.toNat))).length :=
          Nat.lt_base_pow_length_digits (by norm_num)
      _ ≤ 256 ^ (Nat.digits 32 (Nat.ofDigits 256 (inputBytes.reverse.map UInt8.toNat))).length :=
          Nat.pow_le_pow_left (by norm_num) _
  have hsplit := congrArg List.length (List.takeWhile_append_dropWhile (p := (· == (0 : UInt8))) (l := inputBytes))
  rw [List.length_append] at hsplit
  rw [c32Encode_eq, List.length_map, List.length_append, List.length_replicate, List.length_reverse]
  omega

theorem c32Encode_singleton {v : Nat} (hv : v < 32) : c32Encode [UInt8.ofNat v] = [c32Char v] := by
  have h : ∀ v : Fin 32, c32Encode [UInt8.ofNat v] = [c32Char v] := by decide
  exact h ⟨v, hv⟩

end Spec

section Check

@[simp] theorem strLen_cons (c : Char) (s : List Char) : strLen (c :: s) = c.utf8Size + strLen s := rfl

theorem strLen_map_c32Char {ds : List Nat} (hds : ∀ d ∈ ds, d < 32) : strLen (ds.map c32Char) = ds.length := by
  induction ds with
  | nil => rfl
  | cons d ds ih =>
    rw [List.map_cons, strLen_cons, utf8Size_c32Char (hds d (by simp)), ih fun e he => hds e (by simp [he]),
      List.length_cons, Nat.add_comm]

theorem strSplitAt_one {c : Char} (hc : c.utf8Size = 1) (s : List Char) : strSplitAt (c :: s) 1 = some ([c], s) := by
  simp [strSplitAt, hc]

theorem length_doubleSha256Checksum (data : Bytes) : (doubleSha256Checksum sha256 data).length = 4 := by
  simp [doubleSha256Checksum, Sha256Digest.length_bytes]

theorem c32Encode_eq_map (inputBytes : Bytes) :
    ∃ ds : List Nat, (∀ d ∈ ds, d < 32) ∧ c32Encode inputBytes = ds.map c32Char := by
  refine ⟨_, ?_, c32Encode_eq inputBytes⟩
  intro d hd
  rcases List.mem_append.mp hd with hd | hd
  · rw [List.eq_of_mem_replicate hd]
    norm_num
  · exact Nat.digits_lt_base (by norm_num) (List.mem_reverse.mp hd)

theorem c32CheckEncode_eq {version : UInt8} (hv : version < 32) (data : Bytes) :
    c32CheckEncode sha256 version data =
      .ok (c32Char version.toNat :: c32Encode (data ++ doubleSha256Checksum sha256 (version :: data))) := by
  have hle : ¬32 ≤ version := by
    rw [UInt8.le_iff_toNat_le]
    rw [UInt8.lt_iff_toNat_lt] at hv
    exact Nat.not_le.mpr hv
  rw [c32CheckEncode, if_neg hle]

/-- `c32_check_decode` reads back what `c32_check_encode` wrote: the version
and the data, for every version below 32 and every non-empty data. -/
theorem c32CheckDecode_c32CheckEncode (hupper : ∀ c ∈ C32_CHARACTERS, upper c = [c]) {version : UInt8}
    (hv : version < 32) {data : Bytes} (hdata : data ≠ []) :
    ∃ s, c32CheckEncode sha256 version data = .ok s ∧ c32CheckDecode upper sha256 s = .ok (version, data) := by
  have hv' : version.toNat < 32 := UInt8.lt_iff_toNat_lt.mp hv
  have hsum := length_doubleSha256Checksum sha256 (version :: data)
  obtain ⟨ds, hds, henc⟩ := c32Encode_eq_map (data ++ doubleSha256Checksum sha256 (version :: data))
  have hdata1 : 1 ≤ data.length := List.length_pos_iff.mpr hdata
  have hlen := length_le_c32Encode (data ++ doubleSha256Checksum sha256 (version :: data))
  rw [List.length_append, hsum, henc, List.length_map] at hlen
  -- the whole string is alphabet characters: the version's, then the encoding's
  have hall : ∀ d ∈ version.toNat :: ds, d < 32 := by
    intro d hd
    rcases List.mem_cons.mp hd with rfl | hd
    · exact hv'
    · exact hds d hd
  have hversion : c32Decode upper [c32Char version.toNat] = .ok [version] := by
    rw [← c32Encode_singleton hv', c32Decode_c32Encode upper hupper, UInt8.ofNat_toNat]
  have hsplit : (data ++ doubleSha256Checksum sha256 (version :: data)).splitAt
      ((data ++ doubleSha256Checksum sha256 (version :: data)).length - 4) =
      (data, doubleSha256Checksum sha256 (version :: data)) := by
    rw [List.splitAt_eq, List.length_append, hsum, Nat.add_sub_cancel, List.take_left, List.drop_left]
  refine ⟨_, c32CheckEncode_eq sha256 hv data, ?_⟩
  have hnorm := c32Normalize_map_c32Char upper hupper hall
  rw [List.map_cons] at hnorm
  unfold c32CheckDecode
  rw [henc, if_neg (by rw [← List.map_cons, strLen_map_c32Char hall, List.length_cons]; omega)]
  dsimp only
  rw [hnorm, strSplitAt_one (utf8Size_c32Char hv')]
  simp only [Outcome.expect, Outcome.ok_bind, ← henc, c32Decode_c32Encode upper hupper, Outcome.ofExcept_ok,
    hversion]
  rw [if_neg (by rw [List.length_append, hsum]; omega), hsplit]
  simp

/-- `c32_address_decode` reads back what `c32_address` wrote. -/
theorem c32AddressDecode_c32Address (hupper : ∀ c ∈ C32_CHARACTERS, upper c = [c]) {version : UInt8}
    (hv : version < 32) {data : Bytes} (hdata : data ≠ []) :
    ∃ s, c32Address sha256 version data = .ok s ∧ c32AddressDecode upper sha256 s = .ok (version, data) := by
  obtain ⟨s, hs, hdec⟩ := c32CheckDecode_c32CheckEncode upper sha256 hupper hv hdata
  refine ⟨'S' :: s, by rw [c32Address, hs]; rfl, ?_⟩
  -- the check string is one character per data byte and more
  obtain ⟨ds, hds, henc⟩ := c32Encode_eq_map (data ++ doubleSha256Checksum sha256 (version :: data))
  have hlen := length_le_c32Encode (data ++ doubleSha256Checksum sha256 (version :: data))
  rw [List.length_append, length_doubleSha256Checksum, henc, List.length_map] at hlen
  have hdata1 : 1 ≤ data.length := List.length_pos_iff.mpr hdata
  have hstr : strLen s = 1 + ds.length := by
    rw [c32CheckEncode_eq sha256 hv, henc] at hs
    cases hs
    rw [strLen_cons, utf8Size_c32Char (UInt8.lt_iff_toNat_lt.mp hv), strLen_map_c32Char hds]
  have hS : 'S'.utf8Size = 1 := by decide
  unfold c32AddressDecode
  rw [if_neg (by rw [strLen_cons, hstr, hS]; omega), strSplitAt_one hS]
  exact hdec

/-- A version-22 address of three bytes, read back with `char::to_uppercase`
over a digest of zeros. -/
theorem c32AddressDecode_c32Address_version22 :
    (∀ c ∈ C32_CHARACTERS, [c.toUpper] = [c]) ∧ (22 : UInt8) < 32 ∧ ([1, 2, 3] : Bytes) ≠ [] ∧
      ∃ s, c32Address (fun _ => ⟨List.replicate 32 0, List.length_replicate⟩) 22 [1, 2, 3] = .ok s ∧
        c32AddressDecode (fun c => [c.toUpper]) (fun _ => ⟨List.replicate 32 0, List.length_replicate⟩) s =
          .ok (22, [1, 2, 3]) := by
  have hupper : ∀ c ∈ C32_CHARACTERS, [c.toUpper] = [c] := by simp [C32_CHARACTERS, Char.toUpper]
  have hv : (22 : UInt8) < 32 := by decide
  have hdata : ([1, 2, 3] : Bytes) ≠ [] := List.cons_ne_nil _ _
  exact ⟨hupper, hv, hdata, c32AddressDecode_c32Address (fun c => [c.toUpper]) _ hupper hv hdata⟩

end Check

section Panics

/-- `c32_address_decode` cuts `&s[1..]` before it reads a character: a
string of more than five bytes that starts with a character of two or more
bytes panics. -/
theorem c32AddressDecode_panic_of_utf8Size {c : Char} (hc : 1 < c.utf8Size) (rest : List Char)
    (hlen : 5 < strLen (c :: rest)) : c32AddressDecode upper sha256 (c :: rest) = .panic := by
  have hcut : strSplitAt (c :: rest) 1 = none := by
    simp [strSplitAt, hc]
  unfold c32AddressDecode
  rw [if_neg (Nat.not_le.mpr hlen), hcut]
  rfl

theorem c32AddressDecode_panics_on_accented_input :
    c32AddressDecode upper sha256 ['é', '2', '3', '4', '5'] = .panic :=
  c32AddressDecode_panic_of_utf8Size upper sha256 (by decide) _ (by decide)

end Panics

end Address

end BlockstackCore
