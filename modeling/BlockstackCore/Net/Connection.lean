import BlockstackCore.Net.Message
import BlockstackCore.Library.StateResult

/-!
# The inbox of a connection

`ConnectionInbox` (`net/connection.rs`) turns the bytes a peer sends into
messages. `consume_messages` is called on each chunk that `recv_bytes` reads,
of whatever size the socket gave. The inbox keeps in `buf` the bytes it could
not use yet: first a preamble's worth (`buffer_preamble_bytes`), and once the
protocol reads a preamble from them, the body up to the length the preamble
gives (`buffer_message_bytes`). When the body is there, the protocol reads the
message from it (`read_payload`), and the bytes after those it read stay in
the buffer for the next message. A second loop drains the messages that the
buffer still holds.

The inbox is generic over a `ProtocolFamily`: `stacksP2P` is the one of the
peer-to-peer network (`net/codec.rs`). A panic is `none`. The two loops of
`consume_messages` run on a fuel of one turn more than the bytes they hold;
for a protocol whose preambles are not empty, every turn that does not end a
loop takes at least one byte off them (`Net.Framing`), so the fuel never runs
out there.
-/

namespace BlockstackCore

open ByteCodec Outcome

/-- `ProtocolFamily`: how a protocol reads its preambles and its messages.
`stream_payload` reads from a cursor over the bytes it is given. -/
structure ProtocolFamily (Pre Msg : Type) where
  preambleSizeHint : Nat
  payloadLen : Pre → Option Nat
  readPreamble : Bytes → Outcome NetError (Pre × Nat)
  streamPayload : Pre → Bytes → Outcome NetError (Option (Msg × Nat) × Nat)
  readPayload : Pre → Bytes → Outcome NetError (Msg × Nat)
  verifyPayloadBytes : StacksPublicKey → Pre → Bytes → Outcome NetError Unit

/-- `ConnectionInbox`: the key that signs the peer's messages, if known, the
messages read so far and their bound, the preamble read for the message in
progress, and the bytes buffered with the two positions in them. -/
structure ConnectionInbox (Pre Msg : Type) where
  publicKey : Option StacksPublicKey
  inbox : List Msg
  inboxMaxlen : Nat
  preamble : Option Pre
  buf : Bytes
  messagePtr : Nat
  payloadPtr : Nat

namespace ConnectionInbox

variable {Pre Msg : Type} (P : ProtocolFamily Pre Msg)

def new (maxMessages : Nat) (publicKeyOpt : Option StacksPublicKey) : ConnectionInbox Pre Msg :=
  ⟨publicKeyOpt, [], maxMessages, none, [], 0, 0⟩

/-- `&b[i..]`, which panics past the end. -/
def sliceFrom (b : Bytes) (i : Nat) : Option Bytes :=
  if i ≤ b.length then some (b.drop i) else none

/-- `buffer_preamble_bytes`: fill the buffer up to the preamble size hint and
return how many of `bytes` it took. -/
def bufferPreambleBytes (self : ConnectionInbox Pre Msg) (bytes : Bytes) : Nat × ConnectionInbox Pre Msg :=
  let maxPreambleLen := P.preambleSizeHint
  if self.buf.length ≥ maxPreambleLen then (0, self)
  else
    let toConsume :=
      if self.buf.length + bytes.length ≤ maxPreambleLen then bytes.length
      else maxPreambleLen - self.buf.length
    (toConsume, { self with buf := self.buf ++ bytes.take toConsume })

/-- `consume_preamble`: the preamble the buffer starts with, if it holds one
yet, and how many of `bytes` were buffered. -/
def consumePreamble (bytes : Bytes) : StateResult (ConnectionInbox Pre Msg) NetError (Option Pre × Nat) :=
  fun self =>
  let (bytesConsumed, self) := bufferPreambleBytes P self bytes
  match P.readPreamble self.buf with
  | .ok (preamble, preambleLen) =>
    -- `assert!((preamble_len as u32) < MAX_MESSAGE_LEN)`
    if preambleLen % 2 ^ 32 < MAX_MESSAGE_LEN then
      if (P.payloadLen preamble).any (fun payloadLen => payloadLen % 2 ^ 32 ≥ MAX_MESSAGE_LEN) then
        some (.error (.deserializeError "Preamble payload length is too big"), self)
      else
        some (.ok (some preamble, bytesConsumed),
          { self with messagePtr := preambleLen, payloadPtr := preambleLen })
    else none
  | .err (.deserializeError _) => some (.error .invalidMessage, self)
  | .err (.underflowError _) =>
    if bytesConsumed = 0 ∧ bytes.length > 0 then
      some (.error (.deserializeError "Preamble size would exceed maximum allowed size"), self)
    else some (.ok (none, bytesConsumed), self)
  | .err e => some (.error e, self)
  | .panic => none

/-- `buffer_message_bytes`: buffer `bytes` up to the message's length past
`message_ptr`, or up to `MAX_MESSAGE_LEN` when the length is unknown. -/
def bufferMessageBytes (self : ConnectionInbox Pre Msg) (bytes : Bytes) (messageLenOpt : Option Nat) :
    Option (Nat × ConnectionInbox Pre Msg) :=
  let messageLen := messageLenOpt.getD MAX_MESSAGE_LEN
  match sliceFrom self.buf self.messagePtr with
  | none => none
  | some buffered =>
    let bufferredSoFar := buffered.length
    let toConsume :=
      if bufferredSoFar + bytes.length > messageLen then
        if messageLen > bufferredSoFar then messageLen - bufferredSoFar else 0
      else bytes.length
    some (toConsume, { self with buf := self.buf ++ bytes.take toConsume })

/-- The reading part of `consume_payload_known_length`: the signature of the
bytes from `message_ptr`, when the key is known, then `read_payload`, whose
errors all become `InvalidMessage`. -/
def readBody (key : Option StacksPublicKey) (preamble : Pre) (bytes : Bytes) : Outcome NetError (Msg × Nat) :=
  let verified : Outcome NetError Unit :=
    match key with
    | some pubk => P.verifyPayloadBytes pubk preamble bytes
    | none => ok ()
  verified >>= fun _ =>
    match P.readPayload preamble bytes with
    | .ok r => ok r
    | .err _ => err .invalidMessage
    | .panic => panic

/-- `consume_payload_known_length`: once the buffer holds `payload_len` bytes
past `message_ptr`, read the message, and keep the bytes after those the read
took as the start of the next one. -/
def consumePayloadKnownLength (preamble : Pre) : StateResult (ConnectionInbox Pre Msg) NetError (Option Msg) :=
  fun self =>
  match P.payloadLen preamble with
  | none => none
  | some payloadLen =>
    match sliceFrom self.buf self.messagePtr with
    | none => none
    | some messageBytes =>
      if messageBytes.length ≥ payloadLen then
        match readBody P self.publicKey preamble messageBytes with
        | .panic => none
        | .err e => some (.error e, self)
        | .ok (message, messageLen) =>
          match checkedAdd 64 self.messagePtr messageLen with
          | none => some (.error (.overflowError "Overflowed buffer pointer"), self)
          | some nextMessagePtr =>
            match sliceFrom self.buf nextMessagePtr with
            | none => none
            | some trailer =>
              some (.ok (some message), { self with messagePtr := 0, payloadPtr := 0, buf := trailer })
      else some (.ok none, self)

/-- `consume_payload_unknown_length`: stream the bytes from `payload_ptr`
into the protocol, and start the next message where the streamed one ends. -/
def consumePayloadUnknownLength (preamble : Pre) : StateResult (ConnectionInbox Pre Msg) NetError (Option Msg) :=
  fun self =>
  match sliceFrom self.buf self.payloadPtr with
  | none => none
  | some toBuffer =>
    match P.streamPayload preamble toBuffer with
    | .panic => none
    | .err e => some (.error e, self)
    | .ok (messageOpt, bytesConsumed) =>
      match checkedAdd 64 self.payloadPtr bytesConsumed with
      | none => some (.error (.overflowError "Overflowed payload pointer"), self)
      | some payloadPtr =>
        match messageOpt with
        | some (message, _) =>
          match sliceFrom self.buf payloadPtr with
          | none => none
          | some trailer =>
            some (.ok (some message), { self with messagePtr := 0, payloadPtr := 0, buf := trailer })
        | none => some (.ok none, { self with payloadPtr := payloadPtr })

/-- `consume_payload`: buffer what the message still needs of `bytes`, then
try to read it. -/
def consumePayload (preamble : Pre) (bytes : Bytes) :
    StateResult (ConnectionInbox Pre Msg) NetError (Option Msg × Nat) := fun self =>
  let payloadLenOpt := P.payloadLen preamble
  match bufferMessageBytes self bytes payloadLenOpt with
  | none => none
  | some (bytesConsumed, self) =>
    let consume :=
      if payloadLenOpt.isSome then consumePayloadKnownLength P preamble
      else consumePayloadUnknownLength P preamble
    match consume self with
    | none => none
    | some (.error e, self) => some (.error e, self)
    | some (.ok messageOpt, self) => some (.ok (messageOpt, bytesConsumed), self)

/-- The first half of a turn of `consume_messages`: a preamble, when none is
pending. It returns how many of `bytes` were buffered. -/
def preambleStep (bytes : Bytes) : StateResult (ConnectionInbox Pre Msg) NetError Nat := fun self =>
  if self.preamble.isNone then
    match consumePreamble P bytes self with
    | none => none
    | some (.error e, self) => some (.error e, self)
    | some (.ok (preambleOpt, bytesConsumed), self) =>
      some (.ok bytesConsumed, { self with preamble := preambleOpt })
  else some (.ok 0, self)

/-- The second half: the message of the pending preamble, which is taken out
while its payload is read and put back if the message is not complete. It
returns whether a message was pushed, and how many of `bytes` were buffered. -/
def messageStep (bytes : Bytes) : StateResult (ConnectionInbox Pre Msg) NetError (Bool × Nat) := fun self =>
  match self.preamble with
  | none => some (.ok (false, 0), self)
  | some preamble =>
    match consumePayload P preamble bytes { self with preamble := none } with
    | none => none
    | some (.error e, self) => some (.error e, self)
    | some (.ok (some message, bytesConsumed), self) =>
      some (.ok (true, bytesConsumed), { self with inbox := self.inbox ++ [message], preamble := none })
    | some (.ok (none, bytesConsumed), self) =>
      some (.ok (false, bytesConsumed), { self with preamble := some preamble })

/-- The first loop of `consume_messages`, from `offset` in `buf`. -/
def consumeLoop (buf : Bytes) : Nat → Nat → StateResult (ConnectionInbox Pre Msg) NetError Unit
  | 0, _ => fun _ => none
  | fuel + 1, offset => fun self =>
    if self.inbox.length > self.inboxMaxlen then some (.error .inboxOverflow, self)
    else
      match preambleStep P (buf.drop offset) self with
      | none => none
      | some (.error e, self) => some (.error e, self)
      | some (.ok bytesConsumedPreamble, self) =>
        let offset := offset + bytesConsumedPreamble
        if offset = buf.length then some (.ok (), self)
        else
          match messageStep P (buf.drop offset) self with
          | none => none
          | some (.error e, self) => some (.error e, self)
          | some (.ok (_, bytesConsumedMessage), self) =>
            let offset := offset + bytesConsumedMessage
            if offset = buf.length then some (.ok (), self)
            else consumeLoop buf fuel offset self

/-- The second loop of `consume_messages`: the messages the buffer holds. -/
def drainLoop : Nat → StateResult (ConnectionInbox Pre Msg) NetError Unit
  | 0 => fun _ => none
  | fuel + 1 => fun self =>
    match preambleStep P [] self with
    | none => none
    | some (.error e, self) => some (.error e, self)
    | some (.ok _, self) =>
      match messageStep P [] self with
      | none => none
      | some (.error e, self) => some (.error e, self)
      | some (.ok (true, _), self) => drainLoop fuel self
      | some (.ok (false, _), self) => some (.ok (), self)

/-- `consume_messages`: the messages of `buf` after the bytes buffered before
it go to the inbox. -/
def consumeMessages (buf : Bytes) : StateResult (ConnectionInbox Pre Msg) NetError Unit := fun self =>
  match consumeLoop P buf (self.buf.length + buf.length + 1) 0 self with
  | some (.ok (), self) =>
    if self.buf.length > 0 then drainLoop P (self.buf.length + 1) self else some (.ok (), self)
  | r => r

/-- `consume_messages` on each chunk in turn, as `recv_bytes` calls it on what
each read returns, up to the first error. -/
def consumeAll : List Bytes → StateResult (ConnectionInbox Pre Msg) NetError Unit
  | [] => fun self => some (.ok (), self)
  | chunk :: chunks => fun self =>
    match consumeMessages P chunk self with
    | some (.ok (), self) => consumeAll chunks self
    | r => r

end ConnectionInbox

/-! ### The peer-to-peer protocol -/

section StacksP2P

variable {Block Microblock : Type}

/-- `StacksP2P`: preambles of `PREAMBLE_ENCODED_SIZE` bytes that give the
length of the body, which `read_payload` decodes by `deserialize_body` from
its first `payload_len` bytes. It returns the position the decoder stopped
at (`cursor.position()`) as the message's length. -/
def stacksP2P (codecs : MessageCodecs Block Microblock) :
    ProtocolFamily Preamble (StacksMessage Block Microblock) where
  preambleSizeHint := PREAMBLE_ENCODED_SIZE
  payloadLen preamble := some preamble.payloadLen
  readPreamble buf :=
    if buf.length < PREAMBLE_ENCODED_SIZE then err (.underflowError "Not enough bytes to form a P2P preamble")
    else do
      let (preamble, _) ← Preamble.consensusDeserialize (buf.take PREAMBLE_ENCODED_SIZE)
      ok (preamble, PREAMBLE_ENCODED_SIZE)
  -- lengths are always known, so the inbox never streams a payload
  streamPayload _ _ := panic
  readPayload preamble bytes :=
    if bytes.length < preamble.payloadLen then err (.underflowError "Not enough bytes to form a StacksMessage")
    else do
      let ((relayers, payload), rest) ← StacksMessage.deserializeBody codecs (bytes.take preamble.payloadLen)
      ok (⟨preamble, relayers, payload⟩, preamble.payloadLen - rest.length)
  verifyPayloadBytes key preamble bytes :=
    if bytes.length < preamble.payloadLen then panic
    else Preamble.verify codecs preamble (bytes.take preamble.payloadLen) key

end StacksP2P

end BlockstackCore
