import BlockstackCore.Vm.Types.Serialization

/-!
# The consensus codec of network messages

`StacksMessageCodec` (`net/codec.rs`): integers are written big-endian at
their width, byte arrays as their bytes, and a `Vec<T>` as a `u32` count
followed by its items. A decoder takes the bytes not yet read and returns
what it read with the bytes after it.

`read_next_vec` refuses a count whose items would occupy more than
`MAX_MESSAGE_LEN` bytes of memory, `mem::size_of::<T>() * len`. The size of a
type in memory is the compiler's choice, not the source's: it is a
parameter of each decoder of a vector. A `BoundReader` around a read ends
the stream after `limit` bytes.

The messages of the errors keep the source's text without the values it
formats into them.
-/

namespace BlockstackCore

open ByteCodec Outcome

/-- `net::Error`, with the variants the codecs and a connection's inbox
raise. -/
inductive NetError where
  | readError (e : ReadError)
  | deserializeError (msg : String)
  | serializeError (msg : String)
  | signingError (msg : String)
  | verifyingError (msg : String)
  | underflowError (msg : String)
  | overflowError (msg : String)
  | invalidMessage
  | inboxOverflow
  deriving DecidableEq, Repr

def MAX_PAYLOAD_LEN : Nat := 1 + 16 * 1024 * 1024

def PREAMBLE_ENCODED_SIZE : Nat := 4 + 4 + 4 + 8 + 20 + 8 + 20 + 4 + 65 + 4

/-- `NEIGHBOR_ADDRESS_ENCODED_SIZE + 4`. -/
def RELAY_DATA_ENCODED_SIZE : Nat := (16 + 2 + 20) + 4

def MAX_RELAYERS_LEN : Nat := 16

def MAX_MESSAGE_LEN : Nat :=
  MAX_PAYLOAD_LEN + (PREAMBLE_ENCODED_SIZE + MAX_RELAYERS_LEN * RELAY_DATA_ENCODED_SIZE)

/-- A type made by `impl_byte_array_message_codec!`: exactly `n` bytes. -/
structure FixedBytes (n : Nat) where
  bytes : Bytes
  length_eq : bytes.length = n
  deriving DecidableEq, Repr

theorem FixedBytes.bytes_injective {n : Nat} : Function.Injective (@FixedBytes.bytes n) := by
  intro a b h
  cases a
  cases b
  cases h
  rfl

/-- `[b; n]`. -/
def FixedBytes.replicate (n : Nat) (b : UInt8) : FixedBytes n := ⟨List.replicate n b, List.length_replicate⟩

/-- A decoder: what it read, and the bytes after it. -/
abbrev Decoder (α : Type) := Bytes → Outcome NetError (α × Bytes)

/-- `consensus_deserialize` of a `w`-byte unsigned integer: `read_exact`,
then `from_be_bytes`. -/
def readInt (w : Nat) : Decoder Nat := fun r =>
  match readExact w r with
  | .ok (bytes, r) => ok (ofBeBytes bytes, r)
  | .error e => err (.readError e)

def readU8 : Decoder UInt8 := fun r =>
  match r with
  | b :: r => ok (b, r)
  | [] => err (.readError .unexpectedEof)

/-- `consensus_deserialize` of a byte array type. -/
def readFixed (n : Nat) : Decoder (FixedBytes n) := fun r =>
  match h : readExact n r with
  | .ok (bytes, r) => ok (⟨bytes, (readExact_eq_ok h).1⟩, r)
  | .error e => err (.readError e)

/-- `BoundReader::from_reader(fd, limit)` around one read: the read sees the
first `limit` bytes, and the stream goes on after what it took. -/
def boundRead {α : Type} (limit : Nat) (read : Decoder α) : Decoder α := fun r => do
  let bounded := r.take limit
  let (a, rest) ← read bounded
  ok (a, r.drop (bounded.length - rest.length))

/-- The loop of `read_next_vec`: `n` items in a row. -/
def readItems {α : Type} (read : Decoder α) : Nat → Decoder (List α)
  | 0, r => ok ([], r)
  | n + 1, r => do
    let (item, r) ← read r
    let (items, r) ← readItems read n r
    ok (item :: items, r)

/-- `read_next_vec`: a `u32` count, checked against `max_items` if it is not
zero and against `num_items` otherwise, then against the memory bound. -/
def readNextVec {α : Type} (sizeOf : Nat) (read : Decoder α) (numItems maxItems : Nat) :
    Decoder (List α) := fun r => do
  let (len, r) ← readInt 4 r
  let checked : Outcome NetError Unit :=
    if maxItems > 0 then
      if len > maxItems then err (.deserializeError "Array has too many items") else ok ()
    else if len != numItems then err (.deserializeError "Array has incorrect number of items")
    else ok ()
  checked
  if sizeOf * len > MAX_MESSAGE_LEN then
    err (.deserializeError "Message occupies too many bytes")
  else readItems read len r

/-- `Vec<T>::consensus_deserialize`: `read_next_at_most(fd, u32::max_value())`. -/
def readVec {α : Type} (sizeOf : Nat) (read : Decoder α) : Decoder (List α) :=
  readNextVec sizeOf read 0 (2 ^ 32 - 1)

/-- The items of a `Vec<T>::consensus_serialize`, each by `write`. -/
def writeItems {α : Type} (write : α → Outcome NetError Bytes) : List α → Outcome NetError Bytes
  | [] => ok []
  | x :: xs => do ok ((← write x) ++ (← writeItems write xs))

/-- `Vec<T>::consensus_serialize`: the count `as u32`, then the items. -/
def writeVec {α : Type} (write : α → Outcome NetError Bytes) (xs : List α) :
    Outcome NetError Bytes := do
  ok (beBytes 4 xs.length ++ (← writeItems write xs))

/-- A vector of items that always encode encodes. -/
theorem writeVec_ok {α : Type} {write : α → Outcome NetError Bytes}
    (hw : ∀ x, ∃ b, write x = ok b) (xs : List α) : ∃ b, writeVec write xs = ok b := by
  have hitems : ∀ xs : List α, ∃ b, writeItems write xs = ok b := by
    intro xs
    induction xs with
    | nil => exact ⟨[], rfl⟩
    | cons x xs ih =>
      obtain ⟨bx, hbx⟩ := hw x
      obtain ⟨bxs, hbxs⟩ := ih
      exact ⟨bx ++ bxs, by simp only [writeItems, hbx, hbxs, ok_bind]⟩
  obtain ⟨items, hitems⟩ := hitems xs
  exact ⟨beBytes 4 xs.length ++ items, by simp only [writeVec, hitems, ok_bind]⟩

/-! ### Round trips -/

/-- `read` gives back what `write` wrote, whatever follows it. -/
def RoundTrips {α : Type} (write : α → Outcome NetError Bytes) (read : Decoder α) (x : α) : Prop :=
  ∀ b rest, write x = ok b → read (b ++ rest) = ok (x, rest)

theorem readInt_beBytes {w n : Nat} (h : n < 256 ^ w) (rest : Bytes) :
    readInt w (beBytes w n ++ rest) = ok (n, rest) := by
  simp only [readInt, readExact_append rest (length_beBytes w n), ofBeBytes_beBytes_of_lt h]

theorem readU8_cons (b : UInt8) (rest : Bytes) : readU8 (b :: rest) = ok (b, rest) := rfl

theorem readFixed_append {n : Nat} (x : FixedBytes n) (rest : Bytes) :
    readFixed n (x.bytes ++ rest) = ok (x, rest) := by
  unfold readFixed
  split
  · rename_i bytes r h
    rw [readExact_append rest x.length_eq] at h
    cases h
    rfl
  · rename_i e h
    rw [readExact_append rest x.length_eq] at h
    cases h

theorem readItems_writeItems {α : Type} {write : α → Outcome NetError Bytes} {read : Decoder α} :
    ∀ {xs : List α} {b : Bytes}, (∀ x ∈ xs, RoundTrips write read x) →
      writeItems write xs = ok b → ∀ rest, readItems read xs.length (b ++ rest) = ok (xs, rest)
  | [], b, _, hw, rest => by
    simp only [writeItems, ok.injEq] at hw
    subst hw
    rfl
  | x :: xs, b, hx, hw, rest => by
    obtain ⟨bx, hbx, hw⟩ := bind_eq_ok.mp hw
    obtain ⟨bxs, hbxs, hw⟩ := bind_eq_ok.mp hw
    simp only [ok.injEq] at hw
    subst hw
    have hhead := hx x List.mem_cons_self bx (bxs ++ rest) hbx
    have htail := readItems_writeItems (fun y hy => hx y (List.mem_cons_of_mem x hy)) hbxs rest
    simp only [List.length_cons, readItems, List.append_assoc, hhead, ok_bind, htail]

theorem readU8_roundTrips (b : UInt8) : RoundTrips (fun b => ok [b]) readU8 b := by
  intro bs rest hw
  simp only [ok.injEq] at hw
  subst hw
  rfl

/-- A vector of exactly `numItems` items round-trips through the reader that
wants that many (`max_items` zero). -/
theorem readNextVec_writeVec {α : Type} {sizeOf numItems : Nat} {write : α → Outcome NetError Bytes}
    {read : Decoder α} {xs : List α} {b : Bytes} (hxs : ∀ x ∈ xs, RoundTrips write read x)
    (hlen : xs.length = numItems) (hcount : numItems < 2 ^ 32) (hsize : sizeOf * numItems ≤ MAX_MESSAGE_LEN)
    (hw : writeVec write xs = ok b) (rest : Bytes) :
    readNextVec sizeOf read numItems 0 (b ++ rest) = ok (xs, rest) := by
  obtain ⟨items, hitems, hw⟩ := bind_eq_ok.mp hw
  simp only [ok.injEq] at hw
  subst hw hlen
  have hcount' : xs.length < 256 ^ 4 := by simpa using hcount
  have hmem : ¬ sizeOf * xs.length > MAX_MESSAGE_LEN := by omega
  simp only [readNextVec, List.append_assoc, readInt_beBytes hcount', ok_bind, gt_iff_lt, Nat.lt_irrefl,
    if_false, bne_self_eq_false, Bool.false_eq_true, hmem]
  exact readItems_writeItems hxs hitems rest

/-! ### What a decoder returns -/

/-- The readers of integers and byte arrays fail only with a read error. -/
theorem readInt_ends {q : NetError → Prop} (hq : ∀ e, q (.readError e)) (w : Nat) (r : Bytes) :
    Ends (fun _ => True) q (readInt w r) := by
  unfold readInt
  split
  · exact Ends.of_ok trivial
  · exact Ends.of_err (hq _)

theorem readFixed_ends {q : NetError → Prop} (hq : ∀ e, q (.readError e)) (n : Nat) (r : Bytes) :
    Ends (fun _ => True) q (readFixed n r) := by
  unfold readFixed
  split
  · exact Ends.of_ok trivial
  · exact Ends.of_err (hq _)

/-- Every value `read` returns satisfies `P`. -/
def ReadsOnly {α : Type} (P : α → Prop) (read : Decoder α) : Prop :=
  ∀ r x rest, read r = ok (x, rest) → P x

theorem readItems_forall {α : Type} {P : α → Prop} {read : Decoder α} (hread : ReadsOnly P read) :
    ∀ n, ReadsOnly (fun xs => ∀ x ∈ xs, P x) (readItems read n)
  | 0, r, xs, rest, h => by
    simp only [readItems, ok.injEq, Prod.mk.injEq] at h
    obtain ⟨rfl, -⟩ := h
    simp
  | n + 1, r, xs, rest, h => by
    simp only [readItems] at h
    obtain ⟨⟨item, r₁⟩, hitem, h⟩ := bind_eq_ok.mp h
    obtain ⟨⟨items, r₂⟩, hitems, h⟩ := bind_eq_ok.mp h
    simp only [ok.injEq, Prod.mk.injEq] at h
    obtain ⟨rfl, -⟩ := h
    intro x hx
    rcases List.mem_cons.mp hx with rfl | hx
    · exact hread _ _ _ hitem
    · exact readItems_forall hread n _ _ _ hitems x hx

theorem readNextVec_forall {α : Type} {P : α → Prop} {sizeOf numItems maxItems : Nat}
    {read : Decoder α} (hread : ReadsOnly P read) :
    ReadsOnly (fun xs => ∀ x ∈ xs, P x) (readNextVec sizeOf read numItems maxItems) := by
  intro r xs rest h
  obtain ⟨⟨len, r₁⟩, -, h⟩ := bind_eq_ok.mp h
  obtain ⟨_, -, h⟩ := bind_eq_ok.mp h
  split_ifs at h
  exact readItems_forall hread len _ _ _ h

theorem readItems_length {α : Type} {read : Decoder α} :
    ∀ n, ReadsOnly (fun xs => xs.length = n) (readItems read n)
  | 0, r, xs, rest, h => by
    simp only [readItems, ok.injEq, Prod.mk.injEq] at h
    rw [← h.1]
    rfl
  | n + 1, r, xs, rest, h => by
    simp only [readItems] at h
    obtain ⟨⟨item, r₁⟩, -, h⟩ := bind_eq_ok.mp h
    obtain ⟨⟨items, r₂⟩, hitems, h⟩ := bind_eq_ok.mp h
    simp only [ok.injEq, Prod.mk.injEq] at h
    rw [← h.1, List.length_cons, readItems_length n _ _ _ hitems]

/-- With `max_items` zero a vector is read only at its expected count. -/
theorem readNextVec_length {α : Type} {sizeOf numItems : Nat} {read : Decoder α} :
    ReadsOnly (fun xs => xs.length = numItems) (readNextVec sizeOf read numItems 0) := by
  intro r xs rest h
  obtain ⟨⟨len, r₁⟩, -, h⟩ := bind_eq_ok.mp h
  obtain ⟨_, hcheck, h⟩ := bind_eq_ok.mp h
  have hlen : len = numItems := by
    by_contra hne
    simp [hne] at hcheck
  split_ifs at h
  rw [← hlen]
  exact readItems_length len _ _ _ h

theorem boundRead_forall {α : Type} {P : α → Prop} {limit : Nat} {read : Decoder α}
    (hread : ReadsOnly P read) : ReadsOnly P (boundRead limit read) := by
  intro r x rest h
  obtain ⟨⟨a, rest'⟩, ha, h⟩ := bind_eq_ok.mp h
  simp only [ok.injEq, Prod.mk.injEq] at h
  obtain ⟨rfl, -⟩ := h
  exact hread _ _ _ ha

end BlockstackCore
