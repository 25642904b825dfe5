import BlockstackCore.Chainstate.Stacks.Signing
import BlockstackCore.Chainstate.Stacks.Index.Proofs
import BlockstackCore.Library.Bitmap

/-!
# Peer-to-peer messages and their codec

`net/mod.rs` and `net/codec.rs`: a `StacksMessage` is a `Preamble`, the list
of peers that relayed it, and a payload of one of fifteen kinds. On the wire
the preamble comes first, in `PREAMBLE_ENCODED_SIZE` bytes, and then the body:
the relayers as a vector, the one-byte `StacksMessageID` of the payload, and
the payload. The preamble's `payload_len` is the length of the body.

Integers are `Nat`, read from their big-endian bytes. The codecs of blocks and
microblocks (`chainstate/stacks/block.rs`) are not modelled here: their
decoders are parameters, and so are the check that a `UrlString` is a block
URL, the hash and the curve that `Preamble::verify` uses, and the sizes in
memory that `read_next_vec` bounds (`MessageCodecs`). The messages of the
errors keep the source's text without the values it formats into them.

A `BlocksInvData` payload also has its encoder here, with
`compress_bools`, which packs a node's flags into its bit vectors: it
decodes back exactly when it is valid (`BlocksInvData.roundTrip_iff_valid`),
and bit `i` of the packed bytes is flag `i` (`BlocksInvData.get_compressBools`).
-/

namespace BlockstackCore

open ByteCodec Outcome

def MAX_NEIGHBORS_DATA_LEN : Nat := 128

def BLOCKS_INV_DATA_MAX_BITLEN : Nat := 4096

def BLOCKS_AVAILABLE_MAX_LEN : Nat := 32

def BLOCKS_PUSHED_MAX : Nat := 32

def MAX_BLOCK_LEN : Nat := MAX_MESSAGE_LEN

abbrev ConsensusHash := FixedBytes 20

abbrev BurnchainHeaderHash := FixedBytes 32

abbrev PeerAddress := FixedBytes 16

abbrev StacksPublicKeyBuffer := FixedBytes 33

structure Preamble where
  peerVersion : Nat
  networkId : Nat
  seq : Nat
  burnBlockHeight : Nat
  burnConsensusHash : ConsensusHash
  burnStableBlockHeight : Nat
  burnStableConsensusHash : ConsensusHash
  additionalData : Nat
  signature : MessageSignature
  payloadLen : Nat
  deriving DecidableEq, Repr

structure NeighborAddress where
  addrbytes : PeerAddress
  port : Nat
  publicKeyHash : Hash160
  deriving DecidableEq, Repr

structure RelayData where
  peer : NeighborAddress
  seq : Nat
  deriving DecidableEq, Repr

structure UrlString where
  bytes : Bytes
  deriving DecidableEq, Repr

structure HandshakeData where
  addrbytes : PeerAddress
  port : Nat
  services : Nat
  nodePublicKey : StacksPublicKeyBuffer
  expireBlockHeight : Nat
  dataUrl : UrlString
  deriving DecidableEq, Repr

structure HandshakeAcceptData where
  handshake : HandshakeData
  heartbeatInterval : Nat
  deriving DecidableEq, Repr

structure NeighborsData where
  neighbors : List NeighborAddress
  deriving DecidableEq, Repr

structure GetBlocksInv where
  consensusHash : ConsensusHash
  numBlocks : Nat
  deriving DecidableEq, Repr

structure BlocksInvData where
  bitlen : Nat
  blockBitvec : Bytes
  microblocksBitvec : Bytes
  deriving DecidableEq, Repr

structure BlocksAvailableData where
  available : List (ConsensusHash × BurnchainHeaderHash)
  deriving DecidableEq, Repr

structure BlocksData (Block : Type) where
  blocks : List (BurnchainHeaderHash × Block)

structure MicroblocksData (Microblock : Type) where
  indexAnchorBlock : BlockHeaderHash
  microblocks : List Microblock

structure NackData where
  errorCode : Nat
  deriving DecidableEq, Repr

structure PingData where
  nonce : Nat
  deriving DecidableEq, Repr

structure PongData where
  nonce : Nat
  deriving DecidableEq, Repr

inductive StacksMessageID where
  | handshake
  | handshakeAccept
  | handshakeReject
  | getNeighbors
  | neighbors
  | getBlocksInv
  | blocksInv
  | blocksAvailable
  | microblocksAvailable
  | blocks
  | microblocks
  | transaction
  | nack
  | ping
  | pong
  | reserved
  deriving DecidableEq, Repr

def StacksMessageID.toU8 : StacksMessageID → UInt8
  | .handshake => 0
  | .handshakeAccept => 1
  | .handshakeReject => 2
  | .getNeighbors => 3
  | .neighbors => 4
  | .getBlocksInv => 5
  | .blocksInv => 6
  | .blocksAvailable => 7
  | .microblocksAvailable => 8
  | .blocks => 9
  | .microblocks => 10
  | .transaction => 11
  | .nack => 12
  | .ping => 13
  | .pong => 14
  | .reserved => 255

inductive StacksMessageType (Block Microblock : Type) where
  | handshake (m : HandshakeData)
  | handshakeAccept (m : HandshakeAcceptData)
  | handshakeReject
  | getNeighbors
  | neighbors (m : NeighborsData)
  | getBlocksInv (m : GetBlocksInv)
  | blocksInv (m : BlocksInvData)
  | blocksAvailable (m : BlocksAvailableData)
  | microblocksAvailable (m : BlocksAvailableData)
  | blocks (m : BlocksData Block)
  | microblocks (m : MicroblocksData Microblock)
  | transaction (m : StacksTransaction)
  | nack (m : NackData)
  | ping (m : PingData)
  | pong (m : PongData)

structure StacksMessage (Block Microblock : Type) where
  preamble : Preamble
  relayers : List RelayData
  payload : StacksMessageType Block Microblock

/-- What the message codec takes from codecs this development does not model:
the decoders of blocks and microblocks, the URL check of `UrlString`, the
transaction decoder's curve and sizes in memory, the sizes in memory of the
items of the message's own vectors, and the hash and the signature check of
`Preamble::verify`. -/
structure MessageCodecs (Block Microblock : Type) where
  /-- `StacksBlock::consensus_deserialize`. -/
  readBlock : Decoder Block
  /-- `StacksBlockHeader::make_index_block_hash` of a block and its burn header hash. -/
  indexBlockHash : BurnchainHeaderHash → Block → FixedBytes 32
  /-- `Vec<StacksMicroblock>::consensus_deserialize`. -/
  readMicroblocks : Decoder (List Microblock)
  /-- `UrlString::try_from` and `parse_to_block_url` of the string these
  bytes encode, with their errors. -/
  parseBlockUrl : Bytes → Outcome NetError Unit
  secp : Secp256k1
  txSizes : MemSizes
  isClarityVariable : ClarityName → Bool
  relayDataSize : Nat
  neighborAddressSize : Nat
  blocksAvailableItemSize : Nat
  blocksItemSize : Nat
  /-- `Sha512Trunc256Sum` of the bytes. -/
  sha512Trunc256 : Bytes → FixedBytes 32
  /-- `Secp256k1PublicKey::verify`; `none` is its error. -/
  verifySignature : StacksPublicKey → FixedBytes 32 → MessageSignature → Option Bool

/-! ### The preamble -/

/-- `Preamble::consensus_serialize`. -/
def Preamble.consensusSerialize (p : Preamble) : Bytes :=
  beBytes 4 p.peerVersion ++ beBytes 4 p.networkId ++ beBytes 4 p.seq ++ beBytes 8 p.burnBlockHeight ++
    p.burnConsensusHash.bytes ++ beBytes 8 p.burnStableBlockHeight ++ p.burnStableConsensusHash.bytes ++
    beBytes 4 p.additionalData ++ p.signature.bytes ++ beBytes 4 p.payloadLen

/-- `Preamble::consensus_deserialize`: the ten fields, then the checks on the
payload length and on the two heights. -/
def Preamble.consensusDeserialize : Decoder Preamble := fun r => do
  let (peerVersion, r) ← readInt 4 r
  let (networkId, r) ← readInt 4 r
  let (seq, r) ← readInt 4 r
  let (burnBlockHeight, r) ← readInt 8 r
  let (burnConsensusHash, r) ← readFixed 20 r
  let (burnStableBlockHeight, r) ← readInt 8 r
  let (burnStableConsensusHash, r) ← readFixed 20 r
  let (additionalData, r) ← readInt 4 r
  let (signature, r) ← readFixed 65 r
  let (payloadLen, r) ← readInt 4 r
  if payloadLen < 5 then err (.deserializeError "Payload len is too small")
  else if payloadLen ≥ MAX_MESSAGE_LEN then err (.deserializeError "Payload len is too big")
  else if burnBlockHeight ≤ burnStableBlockHeight then
    err (.deserializeError "Burn block height <= burn stable block height")
  else
    ok (⟨peerVersion, networkId, seq, burnBlockHeight, burnConsensusHash, burnStableBlockHeight,
      burnStableConsensusHash, additionalData, signature, payloadLen⟩, r)

/-- What `Preamble::consensus_deserialize` accepts: fields within their
widths, a payload length in `[5, MAX_MESSAGE_LEN)`, and the stable height
below the tip's. -/
structure Preamble.Valid (p : Preamble) : Prop where
  peerVersion_lt : p.peerVersion < 256 ^ 4
  networkId_lt : p.networkId < 256 ^ 4
  seq_lt : p.seq < 256 ^ 4
  burnBlockHeight_lt : p.burnBlockHeight < 256 ^ 8
  burnStableBlockHeight_lt : p.burnStableBlockHeight < 256 ^ 8
  additionalData_lt : p.additionalData < 256 ^ 4
  five_le_payloadLen : 5 ≤ p.payloadLen
  payloadLen_lt : p.payloadLen < MAX_MESSAGE_LEN
  stable_lt : p.burnStableBlockHeight < p.burnBlockHeight

theorem Preamble.length_consensusSerialize (p : Preamble) :
    p.consensusSerialize.length = PREAMBLE_ENCODED_SIZE := by
  simp only [consensusSerialize, List.length_append, length_beBytes, FixedBytes.length_eq, PREAMBLE_ENCODED_SIZE]

theorem Preamble.consensusDeserialize_consensusSerialize {p : Preamble} (hp : p.Valid) (rest : Bytes) :
    Preamble.consensusDeserialize (p.consensusSerialize ++ rest) = ok (p, rest) := by
  have hsmall : ¬ p.payloadLen < 5 := Nat.not_lt.mpr hp.five_le_payloadLen
  have hbig : ¬ p.payloadLen ≥ MAX_MESSAGE_LEN := Nat.not_le.mpr hp.payloadLen_lt
  have hheight : ¬ p.burnBlockHeight ≤ p.burnStableBlockHeight := Nat.not_le.mpr hp.stable_lt
  have hwidth : p.payloadLen < 256 ^ 4 := Nat.lt_trans hp.payloadLen_lt (by decide)
  simp only [consensusDeserialize, consensusSerialize, List.append_assoc,
    readInt_beBytes hp.peerVersion_lt, readInt_beBytes hp.networkId_lt, readInt_beBytes hp.seq_lt,
    readInt_beBytes hp.burnBlockHeight_lt, readFixed_append, readInt_beBytes hp.burnStableBlockHeight_lt,
    readInt_beBytes hp.additionalData_lt, readInt_beBytes hwidth,
    ok_bind, hsmall, hbig, hheight, if_false]

/-- A preamble that decodes has a payload length below `MAX_MESSAGE_LEN`, and
a decoding that fails never says that the input ended too soon: running out of
input is a read error. -/
theorem Preamble.consensusDeserialize_ends (r : Bytes) :
    Ends (fun (p, _) => p.payloadLen < MAX_MESSAGE_LEN) (fun e => ∀ msg, e ≠ .underflowError msg)
      (Preamble.consensusDeserialize r) := by
  have hread : ∀ e, ∀ msg, NetError.readError e ≠ .underflowError msg := by simp
  unfold consensusDeserialize
  -- the ten fields, one reader each
  refine (readInt_ends hread 4 r).bind fun (_, r) _ => ?_
  refine (readInt_ends hread 4 r).bind fun (_, r) _ => ?_
  refine (readInt_ends hread 4 r).bind fun (_, r) _ => ?_
  refine (readInt_ends hread 8 r).bind fun (_, r) _ => ?_
  refine (readFixed_ends hread 20 r).bind fun (_, r) _ => ?_
  refine (readInt_ends hread 8 r).bind fun (_, r) _ => ?_
  refine (readFixed_ends hread 20 r).bind fun (_, r) _ => ?_
  refine (readInt_ends hread 4 r).bind fun (_, r) _ => ?_
  refine (readFixed_ends hread 65 r).bind fun (_, r) _ => ?_
  refine (readInt_ends hread 4 r).bind fun (payloadLen, r) _ => ?_
  -- the three checks
  dsimp only
  by_cases hsmall : payloadLen < 5
  · rw [if_pos hsmall]
    exact Ends.of_err (by simp)
  rw [if_neg hsmall]
  by_cases hbig : payloadLen ≥ MAX_MESSAGE_LEN
  · rw [if_pos hbig]
    exact Ends.of_err (by simp)
  rw [if_neg hbig]
  split
  · exact Ends.of_err (by simp)
  · exact Ends.of_ok (Nat.lt_of_not_le hbig)

/-! ### The body -/

section Decode

variable {Block Microblock : Type} (codecs : MessageCodecs Block Microblock)

def NeighborAddress.consensusDeserialize : Decoder NeighborAddress := fun r => do
  let (addrbytes, r) ← readFixed 16 r
  let (port, r) ← readInt 2 r
  let (publicKeyHash, r) ← readFixed 20 r
  ok (⟨addrbytes, port, publicKeyHash⟩, r)

def RelayData.consensusDeserialize : Decoder RelayData := fun r => do
  let (peer, r) ← NeighborAddress.consensusDeserialize r
  let (seq, r) ← readInt 4 r
  ok (⟨peer, seq⟩, r)

/-- `UrlString::consensus_deserialize`: a length byte of at most
`CLARITY_MAX_STRING_LENGTH`, the bytes, which must be UTF-8, and the URL
checks. -/
def UrlString.consensusDeserialize : Decoder UrlString := fun r => do
  let (lenByte, r) ← readU8 r
  if lenByte.toNat > MAX_STRING_LEN then err (.deserializeError "Failed to deserialize URL string: too long")
  else
    match readExact lenByte.toNat r with
    | .error e => err (.readError e)
    | .ok (bytes, r) =>
      if !utf8Valid bytes then
        err (.deserializeError "Failed to parse URL string: could not contruct from utf8")
      else do
        codecs.parseBlockUrl bytes
        ok (⟨bytes⟩, r)

def HandshakeData.consensusDeserialize : Decoder HandshakeData := fun r => do
  let (addrbytes, r) ← readFixed 16 r
  let (port, r) ← readInt 2 r
  let (services, r) ← readInt 2 r
  let (nodePublicKey, r) ← readFixed 33 r
  let (expireBlockHeight, r) ← readInt 8 r
  let (dataUrl, r) ← UrlString.consensusDeserialize codecs r
  ok (⟨addrbytes, port, services, nodePublicKey, expireBlockHeight, dataUrl⟩, r)

def HandshakeAcceptData.consensusDeserialize : Decoder HandshakeAcceptData := fun r => do
  let (handshake, r) ← HandshakeData.consensusDeserialize codecs r
  let (heartbeatInterval, r) ← readInt 4 r
  ok (⟨handshake, heartbeatInterval⟩, r)

def NeighborsData.consensusDeserialize : Decoder NeighborsData := fun r => do
  let (neighbors, r) ← readNextVec codecs.neighborAddressSize NeighborAddress.consensusDeserialize 0
    MAX_NEIGHBORS_DATA_LEN r
  ok (⟨neighbors⟩, r)

def GetBlocksInv.consensusDeserialize : Decoder GetBlocksInv := fun r => do
  let (consensusHash, r) ← readFixed 20 r
  let (numBlocks, r) ← readInt 2 r
  if numBlocks > BLOCKS_INV_DATA_MAX_BITLEN then err (.deserializeError "Block diff is too big for inv")
  else ok (⟨consensusHash, numBlocks⟩, r)

/-- `BITVEC_LEN!`: the bytes that hold `bitlen` bits. -/
def bitvecLen (bitlen : Nat) : Nat := bitlen / 8 + if bitlen % 8 > 0 then 1 else 0

def BlocksInvData.consensusDeserialize : Decoder BlocksInvData := fun r => do
  let (bitlen, r) ← readInt 2 r
  if bitlen > BLOCKS_INV_DATA_MAX_BITLEN then err (.deserializeError "bitlen is bigger than max bitlen inv")
  else do
    let (blockBitvec, r) ← readNextVec 1 readU8 (bitvecLen bitlen) 0 r
    let (microblocksBitvec, r) ← readNextVec 1 readU8 (bitvecLen bitlen) 0 r
    ok (⟨bitlen, blockBitvec, microblocksBitvec⟩, r)

def readAvailablePair : Decoder (ConsensusHash × BurnchainHeaderHash) := fun r => do
  let (consensusHash, r) ← readFixed 20 r
  let (burnHeaderHash, r) ← readFixed 32 r
  ok ((consensusHash, burnHeaderHash), r)

def BlocksAvailableData.consensusDeserialize : Decoder BlocksAvailableData := fun r => do
  let (available, r) ← readNextVec codecs.blocksAvailableItemSize readAvailablePair 0 BLOCKS_AVAILABLE_MAX_LEN r
  ok (⟨available⟩, r)

def readPushedBlock : Decoder (BurnchainHeaderHash × Block) := fun r => do
  let (bhh, r) ← readFixed 32 r
  let (block, r) ← boundRead MAX_BLOCK_LEN codecs.readBlock r
  ok ((bhh, block), r)

/-- `BlocksData::consensus_deserialize`: at most `BLOCKS_PUSHED_MAX` blocks
within `MAX_MESSAGE_LEN` bytes, no two with the same index hash. -/
def BlocksData.consensusDeserialize : Decoder (BlocksData Block) := fun r => do
  let (blocks, r) ← boundRead MAX_MESSAGE_LEN
    (readNextVec codecs.blocksItemSize (readPushedBlock codecs) 0 BLOCKS_PUSHED_MAX) r
  let idxHashes := blocks.map fun (bhh, block) => codecs.indexBlockHash bhh block
  if idxHashes.Nodup then ok (⟨blocks⟩, r)
  else err (.deserializeError "Invalid BlocksData: duplicate block")

def MicroblocksData.consensusDeserialize : Decoder (MicroblocksData Microblock) := fun r => do
  let (indexAnchorBlock, r) ← readFixed 32 r
  let (microblocks, r) ← boundRead MAX_MESSAGE_LEN codecs.readMicroblocks r
  ok (⟨⟨indexAnchorBlock.bytes, indexAnchorBlock.length_eq⟩, microblocks⟩, r)

def readTransactionPayload : Decoder StacksTransaction := fun r => do
  let (tx, len) ← StacksTransaction.consensusDeserializeWithLen codecs.secp codecs.txSizes
    codecs.isClarityVariable r
  ok (tx, r.drop len)

/-- `StacksMessageID::consensus_deserialize`: the ids it matches are those
below `Reserved`. -/
def StacksMessageID.fromU8 (b : UInt8) : Option StacksMessageID :=
  [StacksMessageID.handshake, .handshakeAccept, .handshakeReject, .getNeighbors, .neighbors, .getBlocksInv,
    .blocksInv, .blocksAvailable, .microblocksAvailable, .blocks, .microblocks, .transaction, .nack, .ping,
    .pong].find? fun id => id.toU8 == b

def StacksMessageID.consensusDeserialize : Decoder StacksMessageID := fun r => do
  let (asU8, r) ← readU8 r
  match StacksMessageID.fromU8 asU8 with
  | some id => ok (id, r)
  | none => err (.deserializeError "Unknown message ID")

/-- `StacksMessageType::consensus_deserialize`: the id, then the payload of
that kind. -/
def StacksMessageType.consensusDeserialize : Decoder (StacksMessageType Block Microblock) := fun r => do
  let (messageId, r) ← StacksMessageID.consensusDeserialize r
  match messageId with
  | .handshake => do
    let (m, r) ← HandshakeData.consensusDeserialize codecs r
    ok (.handshake m, r)
  | .handshakeAccept => do
    let (m, r) ← HandshakeAcceptData.consensusDeserialize codecs r
    ok (.handshakeAccept m, r)
  | .handshakeReject => ok (.handshakeReject, r)
  | .getNeighbors => ok (.getNeighbors, r)
  | .neighbors => do
    let (m, r) ← NeighborsData.consensusDeserialize codecs r
    ok (.neighbors m, r)
  | .getBlocksInv => do
    let (m, r) ← GetBlocksInv.consensusDeserialize r
    ok (.getBlocksInv m, r)
  | .blocksInv => do
    let (m, r) ← BlocksInvData.consensusDeserialize r
    ok (.blocksInv m, r)
  | .blocksAvailable => do
    let (m, r) ← BlocksAvailableData.consensusDeserialize codecs r
    ok (.blocksAvailable m, r)
  | .microblocksAvailable => do
    let (m, r) ← BlocksAvailableData.consensusDeserialize codecs r
    ok (.microblocksAvailable m, r)
  | .blocks => do
    let (m, r) ← BlocksData.consensusDeserialize codecs r
    ok (.blocks m, r)
  | .microblocks => do
    let (m, r) ← MicroblocksData.consensusDeserialize codecs r
    ok (.microblocks m, r)
  | .transaction => do
    let (m, r) ← readTransactionPayload codecs r
    ok (.transaction m, r)
  | .nack => do
    let (errorCode, r) ← readInt 4 r
    ok (.nack ⟨errorCode⟩, r)
  | .ping => do
    let (nonce, r) ← readInt 4 r
    ok (.ping ⟨nonce⟩, r)
  | .pong => do
    let (nonce, r) ← readInt 4 r
    ok (.pong ⟨nonce⟩, r)
  | .reserved => err (.deserializeError "Unsupported message ID 'reserved'")

/-- `StacksMessage::deserialize_body`: at most `MAX_RELAYERS_LEN` relayers,
then the payload. -/
def StacksMessage.deserializeBody :
    Decoder (List RelayData × StacksMessageType Block Microblock) := fun r => do
  let (relayers, r) ← readNextVec codecs.relayDataSize RelayData.consensusDeserialize 0 MAX_RELAYERS_LEN r
  let (payload, r) ← StacksMessageType.consensusDeserialize codecs r
  ok ((relayers, payload), r)

/-- `Preamble::verify`: the signature over the hash of the preamble with a
blank signature followed by the body. -/
def Preamble.verify (p : Preamble) (messageBits : Bytes) (pubkey : StacksPublicKey) :
    Outcome NetError Unit :=
  let digestBits := codecs.sha512Trunc256 ({ p with signature := MessageSignature.empty }.consensusSerialize ++
    messageBits)
  match codecs.verifySignature pubkey digestBits p.signature with
  | none => err (.verifyingError "Failed to verify signature")
  | some true => ok ()
  | some false => err (.verifyingError "Invalid message signature")

/-- A body of no relayers and a `GetNeighbors` payload is read in five bytes. -/
theorem deserializeBody_getNeighbors (rest : Bytes) :
    StacksMessage.deserializeBody codecs ([0, 0, 0, 0, StacksMessageID.getNeighbors.toU8] ++ rest) =
      ok (([], .getNeighbors), rest) := by
  have hcount : readInt 4 ([0, 0, 0, 0, StacksMessageID.getNeighbors.toU8] ++ rest) =
      ok (0, StacksMessageID.getNeighbors.toU8 :: rest) := readInt_beBytes (w := 4) (n := 0) (by decide) _
  have hmax : ¬ (0 : Nat) > MAX_RELAYERS_LEN := by decide
  have hsize : ¬ codecs.relayDataSize * 0 > MAX_MESSAGE_LEN := by simp
  simp only [StacksMessage.deserializeBody, readNextVec, hcount, ok_bind, show MAX_RELAYERS_LEN > 0 by decide,
    if_true, hmax, if_false, hsize, readItems, StacksMessageType.consensusDeserialize,
    StacksMessageID.consensusDeserialize, readU8_cons]
  rfl

end Decode

/-! ### The blocks inventory

`BlocksInvData` on the wire, and `compress_bools`, which packs the flags a
node found into the bit vectors it sends.
-/

/-- `BlocksInvData::consensus_serialize`: `bitlen` as a `u16`, then each bit
vector as a `Vec<u8>`. -/
def BlocksInvData.consensusSerialize (d : BlocksInvData) : Outcome NetError Bytes := do
  ok (beBytes 2 d.bitlen ++ (← writeVec (fun b => ok [b]) d.blockBitvec) ++
    (← writeVec (fun b => ok [b]) d.microblocksBitvec))

/-- What `BlocksInvData::consensus_deserialize` accepts: at most
`BLOCKS_INV_DATA_MAX_BITLEN` bits, and bit vectors of `BITVEC_LEN!(bitlen)`
bytes. -/
structure BlocksInvData.Valid (d : BlocksInvData) : Prop where
  bitlen_le : d.bitlen ≤ BLOCKS_INV_DATA_MAX_BITLEN
  length_blockBitvec : d.blockBitvec.length = bitvecLen d.bitlen
  length_microblocksBitvec : d.microblocksBitvec.length = bitvecLen d.bitlen

theorem bitvecLen_le (n : Nat) : bitvecLen n ≤ n / 8 + 1 := by
  unfold bitvecLen
  split <;> omega

theorem BlocksInvData.valid_of_consensusDeserialize {r rest : Bytes} {d : BlocksInvData}
    (h : BlocksInvData.consensusDeserialize r = ok (d, rest)) : d.Valid := by
  unfold BlocksInvData.consensusDeserialize at h
  obtain ⟨⟨bitlen, r₁⟩, -, h⟩ := bind_eq_ok.mp h
  dsimp only at h
  split at h
  · cases h
  · rename_i hle
    obtain ⟨⟨bv, r₂⟩, hbv, h⟩ := bind_eq_ok.mp h
    obtain ⟨⟨mbv, r₃⟩, hmbv, h⟩ := bind_eq_ok.mp h
    simp only [ok.injEq, Prod.mk.injEq] at h
    obtain ⟨rfl, -⟩ := h
    exact ⟨Nat.le_of_not_lt hle, readNextVec_length _ _ _ hbv, readNextVec_length _ _ _ hmbv⟩

theorem BlocksInvData.exists_consensusSerialize (d : BlocksInvData) : ∃ b, d.consensusSerialize = ok b := by
  obtain ⟨bv, hbv⟩ := writeVec_ok (fun b => ⟨[b], rfl⟩) d.blockBitvec
  obtain ⟨mbv, hmbv⟩ := writeVec_ok (fun b => ⟨[b], rfl⟩) d.microblocksBitvec
  exact ⟨beBytes 2 d.bitlen ++ bv ++ mbv, by simp only [consensusSerialize, hbv, hmbv, ok_bind]⟩

theorem BlocksInvData.consensusDeserialize_consensusSerialize {d : BlocksInvData} (hd : d.Valid) {b : Bytes}
    (hw : d.consensusSerialize = ok b) (rest : Bytes) :
    BlocksInvData.consensusDeserialize (b ++ rest) = ok (d, rest) := by
  obtain ⟨bv, hbv, hw⟩ := bind_eq_ok.mp hw
  obtain ⟨mbv, hmbv, hw⟩ := bind_eq_ok.mp hw
  simp only [ok.injEq] at hw
  subst hw
  have hmax := hd.bitlen_le
  have hvec := bitvecLen_le d.bitlen
  unfold BLOCKS_INV_DATA_MAX_BITLEN at hmax
  have hbitlen : d.bitlen < 256 ^ 2 := by omega
  have hcount : bitvecLen d.bitlen < 2 ^ 32 := by omega
  have hsize : 1 * bitvecLen d.bitlen ≤ MAX_MESSAGE_LEN :=
    calc 1 * bitvecLen d.bitlen ≤ 513 := by omega
      _ ≤ MAX_MESSAGE_LEN := by decide
  have hbig : ¬ d.bitlen > BLOCKS_INV_DATA_MAX_BITLEN := Nat.not_lt.mpr hd.bitlen_le
  simp only [consensusDeserialize, List.append_assoc, readInt_beBytes hbitlen, ok_bind, hbig, if_false,
    readNextVec_writeVec (fun x _ => readU8_roundTrips x) hd.length_blockBitvec hcount hsize hbv,
    readNextVec_writeVec (fun x _ => readU8_roundTrips x) hd.length_microblocksBitvec hcount hsize hmbv]

/-- A `BlocksInvData` is read back from its encoding, whatever follows it,
exactly when it is one the decoder accepts. -/
theorem BlocksInvData.roundTrip_iff_valid (d : BlocksInvData) :
    (∃ b, d.consensusSerialize = ok b ∧ ∀ rest, BlocksInvData.consensusDeserialize (b ++ rest) = ok (d, rest)) ↔
      d.Valid := by
  constructor
  · rintro ⟨b, -, hdec⟩
    exact valid_of_consensusDeserialize (hdec [])
  · intro hd
    obtain ⟨b, hb⟩ := exists_consensusSerialize d
    exact ⟨b, hb, consensusDeserialize_consensusSerialize hd hb⟩

/-- `BlocksInvData::compress_bools`: flag `8 * i + j` goes to bit `j` of byte
`i`, and the flags after the last full byte to one byte more. -/
def BlocksInvData.compressBools (bits : List Bool) : Bytes :=
  let bitvec := (List.range (bits.length / 8)).map fun i =>
    (List.range 8).foldl (fun nextOctet j =>
      if bits.getD (8 * i + j) false then nextOctet ||| Bitmap.mask j else nextOctet) 0
  if bits.length % 8 != 0 then
    let idx := bits.length &&& 0xfffffffffffffff8
    let lastOctet := (bits.drop idx).zipIdx.foldl (fun lastOctet e =>
      if e.1 then lastOctet ||| Bitmap.mask e.2 else lastOctet) 0
    bitvec ++ [lastOctet]
  else bitvec

theorem testBit_lengthMask (i : Nat) (hi : i < 64) : (0xfffffffffffffff8 : Nat).testBit i = decide (3 ≤ i) := by
  revert i
  decide

/-- `(len as u64) & 0xfffffffffffffff8` rounds a length below `2 ^ 64` down to
a multiple of eight. -/
theorem land_lengthMask (n : Nat) (h : n < 2 ^ 64) : n &&& 0xfffffffffffffff8 = n / 8 * 8 := by
  apply Nat.eq_of_testBit_eq
  intro i
  have hshift : n / 8 * 8 = n >>> 3 <<< 3 := by
    rw [Nat.shiftLeft_eq, Nat.shiftRight_eq_div_pow]
  rw [Nat.testBit_and, hshift, Nat.testBit_shiftLeft, Nat.testBit_shiftRight]
  by_cases hi : i < 64
  · rw [testBit_lengthMask i hi]
    by_cases h3 : 3 ≤ i
    · simp [h3, Nat.add_sub_cancel' h3]
    · simp [h3]
  · have hhigh : n.testBit i = false :=
      Nat.testBit_eq_false_of_lt (lt_of_lt_of_le h (Nat.pow_le_pow_right (by decide) (by omega)))
    have hhigh' : n.testBit (3 + (i - 3)) = false := by
      rw [Nat.add_sub_cancel' (by omega)]
      exact hhigh
    simp [hhigh, hhigh']

theorem BlocksInvData.length_compressBools (bits : List Bool) :
    (compressBools bits).length = bitvecLen bits.length := by
  unfold compressBools bitvecLen
  by_cases h8 : bits.length % 8 = 0
  · simp [h8]
  · simp [h8]

/-- Bit `i` of what `compress_bools` packs is flag `i`, and past the flags
every bit is clear. -/
theorem BlocksInvData.get_compressBools {bits : List Bool} (h : bits.length < 2 ^ 64) (i : Nat) :
    Bitmap.get (compressBools bits) i = bits.getD i false := by
  have hi8 : i % 8 < 8 := Nat.mod_lt _ (by decide)
  have hdiv : 8 * (i / 8) + i % 8 = i := Nat.div_add_mod i 8
  have hfull : ∀ tail : Bytes, i / 8 < bits.length / 8 →
      Bitmap.get (((List.range (bits.length / 8)).map fun i =>
        (List.range 8).foldl (fun nextOctet j =>
          if bits.getD (8 * i + j) false then nextOctet ||| Bitmap.mask j else nextOctet) 0) ++ tail) i =
        bits.getD i false := by
    intro tail hlt
    rw [Bitmap.get, List.getD_append _ _ _ _ (by simpa using hlt), List.getD_eq_getElem _ _ (by simpa using hlt),
      List.getElem_map, List.getElem_range, Bitmap.testByte_pack_range _ hi8, hdiv]
  by_cases hlt : i / 8 < bits.length / 8
  · unfold compressBools
    dsimp only
    split
    · exact hfull _ hlt
    · simpa using hfull [] hlt
  by_cases hlast : i / 8 = bits.length / 8 ∧ bits.length % 8 ≠ 0
  · have hidx : bits.length &&& 0xfffffffffffffff8 = bits.length / 8 * 8 := land_lengthMask _ h
    have hshort : (bits.drop (bits.length / 8 * 8)).length ≤ 8 := by
      rw [List.length_drop]
      omega
    unfold compressBools
    dsimp only
    rw [if_pos (by simpa using hlast.2), hidx, Bitmap.get, List.getD_append_right _ _ _ _ (by simp; omega)]
    rw [show i / 8 - ((List.range (bits.length / 8)).map fun i =>
        (List.range 8).foldl (fun nextOctet j =>
          if bits.getD (8 * i + j) false then nextOctet ||| Bitmap.mask j else nextOctet) 0).length = 0 by
      simp; omega]
    rw [List.getD_cons_zero, Bitmap.testByte_pack_zipIdx _ hshort hi8, List.getD_eq_getElem?_getD,
      List.getElem?_drop, ← List.getD_eq_getElem?_getD]
    congr 1
    omega
  · have hpast : (compressBools bits).length ≤ i / 8 := by
      rw [length_compressBools]
      unfold bitvecLen
      split <;> omega
    rw [Bitmap.get_of_length_le hpast, List.getD_eq_default _ _ (by omega)]

/-- Nine flags: the ninth is bit `0` of the second byte. -/
theorem BlocksInvData.get_compressBools_nine :
    [true, false, false, true, false, false, false, false, true].length < 2 ^ 64 ∧
      Bitmap.get (compressBools [true, false, false, true, false, false, false, false, true]) 8 =
        [true, false, false, true, false, false, false, false, true].getD 8 false :=
  ⟨by decide, get_compressBools (by decide) 8⟩

end BlockstackCore
