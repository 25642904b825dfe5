import BlockstackCore.Net.Framing

/-!
# How the peer-to-peer protocol frames its stream

`StacksP2P` (`net/codec.rs`) meets what the inbox's framing needs: its
preamble is read from its first `PREAMBLE_ENCODED_SIZE` bytes and never
underflows on as many, and `read_payload` and `verify_payload_bytes` look at
the first `payload_len` bytes of the body only (`stacksP2P_framed`). So the
messages of a peer's stream and the error it ends in do not depend on how the
socket splits it into chunks.

They do depend on how far the body's decoder reads. `read_payload` returns
`cursor.position()`, the bytes `deserialize_body` took, as the message's
length, and the inbox starts the next preamble there. A body whose decoding
stops short of `payload_len` is not refused: the bytes after it are read as
further messages (`consumeMessages_reads_past_short_body`).
-/

namespace BlockstackCore

open ByteCodec Outcome ConnectionInbox

variable {Block Microblock : Type} (codecs : MessageCodecs Block Microblock)

/-! ### `StacksP2P` is framed -/

@[simp] theorem stacksP2P_preambleSizeHint : (stacksP2P codecs).preambleSizeHint = PREAMBLE_ENCODED_SIZE := rfl

@[simp] theorem stacksP2P_payloadLen (pre : Preamble) : (stacksP2P codecs).payloadLen pre = some pre.payloadLen :=
  rfl

/-! The three reads of `StacksP2P` refuse fewer than `len` bytes and then
read `&bytes[0..len]`, so they give the same on the first `len` bytes as on
the whole. -/

theorem stacksP2P_readPreamble_take {b : Bytes} (h : PREAMBLE_ENCODED_SIZE ≤ b.length) :
    (stacksP2P codecs).readPreamble b = (stacksP2P codecs).readPreamble (b.take PREAMBLE_ENCODED_SIZE) := by
  have hlen : (b.take PREAMBLE_ENCODED_SIZE).length = PREAMBLE_ENCODED_SIZE := List.length_take_of_le h
  simp only [stacksP2P, if_neg (Nat.not_lt.mpr h), hlen, Nat.lt_irrefl, if_false, List.take_take, Nat.min_self]

theorem stacksP2P_readPayload_take {pre : Preamble} {b : Bytes} (h : pre.payloadLen ≤ b.length) :
    (stacksP2P codecs).readPayload pre b = (stacksP2P codecs).readPayload pre (b.take pre.payloadLen) := by
  have hlen : (b.take pre.payloadLen).length = pre.payloadLen := List.length_take_of_le h
  simp only [stacksP2P, if_neg (Nat.not_lt.mpr h), hlen, Nat.lt_irrefl, if_false, List.take_take, Nat.min_self]

theorem stacksP2P_verifyPayloadBytes_take (key : StacksPublicKey) {pre : Preamble} {b : Bytes}
    (h : pre.payloadLen ≤ b.length) :
    (stacksP2P codecs).verifyPayloadBytes key pre b =
      (stacksP2P codecs).verifyPayloadBytes key pre (b.take pre.payloadLen) := by
  have hlen : (b.take pre.payloadLen).length = pre.payloadLen := List.length_take_of_le h
  simp only [stacksP2P, if_neg (Nat.not_lt.mpr h), hlen, Nat.lt_irrefl, if_false, List.take_take, Nat.min_self]

/-- A message read from a body takes at most `payload_len` of its bytes. -/
theorem stacksP2P_readPayload_le {pre : Preamble} {b : Bytes} {m : StacksMessage Block Microblock} {k : Nat}
    (h : (stacksP2P codecs).readPayload pre b = ok (m, k)) : k ≤ pre.payloadLen := by
  simp only [stacksP2P] at h
  split at h
  · cases h
  · obtain ⟨_, -, h⟩ := bind_eq_ok.mp h
    cases h
    omega

theorem stacksP2P_framed : Framed (stacksP2P codecs) where
  hint_pos := show 0 < PREAMBLE_ENCODED_SIZE by decide
  hint_lt := show PREAMBLE_ENCODED_SIZE < MAX_MESSAGE_LEN by decide
  readPreamble_short b h := ⟨_, if_pos h⟩
  readPreamble_take _ h := stacksP2P_readPreamble_take codecs h
  readPreamble_ne_underflow b msg h heq := by
    have hlong : ¬ b.length < PREAMBLE_ENCODED_SIZE := Nat.not_lt.mpr h
    simp only [stacksP2P, if_neg hlong] at heq
    rcases bind_eq_err.mp heq with hdec | ⟨_, -, hok⟩
    · exact (Preamble.consensusDeserialize_ends _).eq_err hdec msg rfl
    · cases hok
  readPreamble_ok b pre n h := by
    simp only [stacksP2P] at h
    split at h
    · cases h
    · obtain ⟨⟨p, r⟩, hdec, hok⟩ := bind_eq_ok.mp h
      cases hok
      exact ⟨rfl, _, rfl, (Preamble.consensusDeserialize_ends _).eq_ok hdec⟩
  readBody_take key pre len b hlen hle := by
    cases hlen
    cases key with
    | none => simp only [readBody, stacksP2P_readPayload_take codecs hle]
    | some pubk =>
      simp only [readBody, stacksP2P_readPayload_take codecs hle, stacksP2P_verifyPayloadBytes_take codecs pubk hle]
  readBody_le key pre len b m k hlen _ h := by
    cases hlen
    exact stacksP2P_readPayload_le codecs (readPayload_of_readBody h)

/-! ### A body that ends early -/

/-- A preamble for a body of `len` bytes, with a stable block below the tip. -/
def framePreamble (len : Nat) : Preamble :=
  ⟨0, 0, 0, 1, .replicate 20 0, 0, .replicate 20 0, 0, MessageSignature.empty, len⟩

theorem framePreamble_valid {len : Nat} (h5 : 5 ≤ len) (hmax : len < MAX_MESSAGE_LEN) :
    (framePreamble len).Valid where
  peerVersion_lt := show 0 < 256 ^ 4 by decide
  networkId_lt := show 0 < 256 ^ 4 by decide
  seq_lt := show 0 < 256 ^ 4 by decide
  burnBlockHeight_lt := show 1 < 256 ^ 8 by decide
  burnStableBlockHeight_lt := show 0 < 256 ^ 8 by decide
  additionalData_lt := show 0 < 256 ^ 4 by decide
  five_le_payloadLen := h5
  payloadLen_lt := hmax
  stable_lt := show 0 < 1 by decide

/-- The five bytes of a body of no relayers and a `GetNeighbors` payload. -/
def getNeighborsBody : Bytes := [0, 0, 0, 0, StacksMessageID.getNeighbors.toU8]

theorem stacksP2P_readPreamble_serialize {p : Preamble} (hp : p.Valid) (rest : Bytes) :
    (stacksP2P codecs).readPreamble (p.consensusSerialize ++ rest) = ok (p, PREAMBLE_ENCODED_SIZE) := by
  have hlen := Preamble.length_consensusSerialize p
  have hlong : ¬ (p.consensusSerialize ++ rest).length < PREAMBLE_ENCODED_SIZE := by
    rw [List.length_append]
    omega
  have htake : (p.consensusSerialize ++ rest).take PREAMBLE_ENCODED_SIZE = p.consensusSerialize ++ [] := by
    rw [List.take_append_of_le_length (by omega), ← hlen, List.take_length, List.append_nil]
  simp only [stacksP2P, if_neg hlong, htake, Preamble.consensusDeserialize_consensusSerialize hp, ok_bind]

theorem length_getNeighborsBody_append (rest : Bytes) : (getNeighborsBody ++ rest).length = 5 + rest.length := by
  simp only [getNeighborsBody, List.length_append, List.length_cons, List.length_nil]

/-- `read_payload` of a body of no relayers and a `GetNeighbors` payload,
followed by more bytes within `payload_len`, reads its first five bytes and
returns the message with the length five. -/
theorem stacksP2P_readPayload_getNeighbors {p : Preamble} {rest : Bytes} (hlen : p.payloadLen = 5 + rest.length) :
    (stacksP2P codecs).readPayload p (getNeighborsBody ++ rest) = ok (⟨p, [], .getNeighbors⟩, 5) := by
  have hbodylen : (getNeighborsBody ++ rest).length = p.payloadLen := by
    rw [length_getNeighborsBody_append, hlen]
  simp only [stacksP2P, Nat.lt_irrefl, if_false, ← hbodylen, List.take_length, getNeighborsBody]
  rw [deserializeBody_getNeighbors, ok_bind]
  simp only [List.length_append, List.length_cons, List.length_nil]
  congr
  omega

/-- A frame whose body reads as a `GetNeighbors` message in its first five
bytes ends there, whatever length its preamble gives the body. -/
theorem firstFrame_getNeighbors {p : Preamble} (hp : p.Valid) {rest : Bytes}
    (hlen : p.payloadLen = 5 + rest.length) (tail : Bytes) :
    firstFrame (stacksP2P codecs) none (p.consensusSerialize ++ (getNeighborsBody ++ rest) ++ tail) =
      .ok (⟨p, [], .getNeighbors⟩, rest ++ tail) := by
  have hsize := Preamble.length_consensusSerialize p
  have hbodylen : (getNeighborsBody ++ rest).length = p.payloadLen := by
    rw [length_getNeighborsBody_append, hlen]
  have hpayload := stacksP2P_readPayload_getNeighbors codecs hlen
  have hbody : readBody (stacksP2P codecs) none p (getNeighborsBody ++ rest ++ tail) =
      ok (⟨p, [], .getNeighbors⟩, 5) := by
    rw [(stacksP2P_framed codecs).readBody_append (stacksP2P_payloadLen codecs p) (by omega)]
    simp [readBody, hpayload]
  have hread := stacksP2P_readPreamble_serialize codecs hp ((getNeighborsBody ++ rest) ++ tail)
  rw [← List.append_assoc] at hread
  have hdrop : (p.consensusSerialize ++ (getNeighborsBody ++ rest) ++ tail).drop PREAMBLE_ENCODED_SIZE =
      getNeighborsBody ++ rest ++ tail := by
    rw [List.append_assoc, List.drop_left' hsize, List.append_assoc]
  have hdrop₅ : (p.consensusSerialize ++ (getNeighborsBody ++ rest) ++ tail).drop (PREAMBLE_ENCODED_SIZE + 5) =
      rest ++ tail := by
    have hsplit : p.consensusSerialize ++ (getNeighborsBody ++ rest) ++ tail =
        (p.consensusSerialize ++ getNeighborsBody) ++ (rest ++ tail) := by
      simp only [List.append_assoc]
    rw [hsplit, List.drop_left' (by simp [hsize, getNeighborsBody])]
  rw [firstFrame_complete hread (stacksP2P_payloadLen codecs p)
    (by rw [stacksP2P_preambleSizeHint, List.length_append, List.length_append, hsize, hbodylen]; omega)]
  rw [stacksP2P_preambleSizeHint, hdrop, hbody]
  simp only [hdrop₅]

/-- One frame by its preamble's `payload_len`: a preamble that announces a
body of 151 bytes, and the body, which is five bytes of a `GetNeighbors`
message followed by a whole second frame of 146 bytes. -/
def nestedFrame : Bytes :=
  (framePreamble 151).consensusSerialize ++
    (getNeighborsBody ++ ((framePreamble 5).consensusSerialize ++ getNeighborsBody))

theorem payloadLen_framePreamble_151 :
    (framePreamble 151).payloadLen = 5 + ((framePreamble 5).consensusSerialize ++ getNeighborsBody).length := by
  rw [List.length_append, Preamble.length_consensusSerialize]
  rfl

/-- The frames the inbox cuts `nestedFrame` into: two messages, the second
read from the first body's leftover bytes, then nothing pending. -/
theorem frames_nestedFrame :
    Frames (stacksP2P codecs) none nestedFrame
      [⟨framePreamble 151, [], .getNeighbors⟩, ⟨framePreamble 5, [], .getNeighbors⟩] (.pending []) := by
  have hinner : (framePreamble 5).payloadLen = 5 + ([] : Bytes).length := rfl
  have h₁ := firstFrame_getNeighbors codecs (framePreamble_valid (by decide) (by decide))
    payloadLen_framePreamble_151 []
  have h₂ := firstFrame_getNeighbors codecs (framePreamble_valid (by decide) (by decide)) hinner []
  simp only [List.append_nil] at h₁ h₂
  exact .message h₁ (.message h₂ (.last (firstFrame_short (by simp only [stacksP2P_preambleSizeHint]; decide))))

/-- The stream `nestedFrame` is exactly one frame of preamble and
`payload_len` body bytes, and `read_payload` reads its body in five of them.
Fed to a new inbox, `consume_messages` does not refuse the frame. It returns
`Ok` with two messages, the second read from the body's leftover bytes as a
frame of its own. -/
theorem consumeMessages_reads_past_short_body (codecs : MessageCodecs Block Microblock) :
    nestedFrame.length = PREAMBLE_ENCODED_SIZE + (framePreamble 151).payloadLen ∧
    (stacksP2P codecs).readPayload (framePreamble 151) (nestedFrame.drop PREAMBLE_ENCODED_SIZE) =
      ok (⟨framePreamble 151, [], .getNeighbors⟩, 5) ∧
    ∃ s, consumeMessages (stacksP2P codecs) nestedFrame (new 2 none) = some (.ok (), s) ∧
      s.inbox = [⟨framePreamble 151, [], .getNeighbors⟩, ⟨framePreamble 5, [], .getNeighbors⟩] := by
  have hsize := Preamble.length_consensusSerialize (framePreamble 151)
  have hbody : nestedFrame.drop PREAMBLE_ENCODED_SIZE =
      getNeighborsBody ++ ((framePreamble 5).consensusSerialize ++ getNeighborsBody) := by
    rw [nestedFrame, List.drop_left' hsize]
  refine ⟨?_, by rw [hbody, stacksP2P_readPayload_getNeighbors codecs payloadLen_framePreamble_151], ?_⟩
  · rw [nestedFrame, List.length_append, hsize, length_getNeighborsBody_append, ← payloadLen_framePreamble_151]
  rcases consumeMessages_frames (stacksP2P_framed codecs)
      (s := (new 2 none : ConnectionInbox Preamble (StacksMessage Block Microblock))) (fun _ h => by cases h)
      (frames_nestedFrame codecs) (by simp [new]) with
    ⟨⟨hfin, -⟩ | ⟨e, -, hfin, -⟩⟩ | ⟨s, -, hres, hinbox, -⟩
  · cases hfin
  · cases hfin
  exact ⟨s, hres, hinbox⟩

/-- Codecs over no blocks that refuse every block and microblock. -/
def unitCodecs : MessageCodecs Unit Unit :=
  ⟨fun _ => err (.deserializeError "no blocks"), fun _ _ => .replicate 32 0,
    fun _ => err (.deserializeError "no microblocks"), fun _ => ok (), ⟨fun _ => true, fun _ => true⟩,
    ⟨0, 0, 0⟩, fun _ => true, 0, 0, 0, 0, fun _ => .replicate 32 0, fun _ _ _ => some true⟩

/-- `nestedFrame` fed whole, or cut after its first 100 bytes, to a new inbox
with room for its two messages. -/
theorem consumeAll_split_invariant_nestedFrame :
    [nestedFrame].flatten = [nestedFrame.take 100, nestedFrame.drop 100].flatten ∧
      Frames (stacksP2P unitCodecs) none [nestedFrame].flatten
        [⟨framePreamble 151, [], .getNeighbors⟩, ⟨framePreamble 5, [], .getNeighbors⟩] (.pending []) ∧
      observe (consumeAll (stacksP2P unitCodecs) [nestedFrame] (new 2 none)) =
        observe (consumeAll (stacksP2P unitCodecs) [nestedFrame.take 100, nestedFrame.drop 100] (new 2 none)) := by
  have hsplit : [nestedFrame].flatten = [nestedFrame.take 100, nestedFrame.drop 100].flatten := by
    simp only [List.flatten_cons, List.flatten_nil, List.append_nil, List.take_append_drop]
  have hW : Frames (stacksP2P unitCodecs) none [nestedFrame].flatten
      [⟨framePreamble 151, [], .getNeighbors⟩, ⟨framePreamble 5, [], .getNeighbors⟩] (.pending []) := by
    rw [List.flatten_singleton]
    exact frames_nestedFrame unitCodecs
  exact ⟨hsplit, hW, consumeAll_split_invariant (stacksP2P_framed unitCodecs) hsplit 2 none hW (Nat.le_refl 2)⟩

end BlockstackCore
