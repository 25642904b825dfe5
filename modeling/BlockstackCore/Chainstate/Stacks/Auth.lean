import BlockstackCore.Net.Codec

/-!
# Transaction authorizations and their codec

`TransactionAuth` (`chainstate/stacks/auth.rs`): the origin's spending
condition, and a sponsor's for a sponsored transaction. A single-signature
condition holds one signature; a multi-signature condition holds a list of
public keys and signatures, of which exactly `signatures_required` are
signatures.

The elliptic curve is kept abstract: the decoders ask it whether 33 bytes
encode a point and whether 65 bytes are a recoverable signature. A public key
is kept as its compressed encoding and the flag `set_compressed` sets. The
sizes in memory that `read_next_vec` checks are parameters (`MemSizes`).
-/

namespace BlockstackCore

open ByteCodec Outcome

/-- The secp256k1 checks of the decoders: `Secp256k1PublicKey::from_slice` of
a compressed encoding, and `MessageSignature::to_secp256k1_recoverable`. -/
structure Secp256k1 where
  isPoint : Bytes → Bool
  isRecoverable : Bytes → Bool

/-- `mem::size_of` of the types that are read as vectors. -/
structure MemSizes where
  authField : Nat
  postCondition : Nat
  value : Nat

abbrev Hash160 := FixedBytes 20

abbrev MessageSignature := FixedBytes 65

/-- `StacksPublicKey`: the compressed encoding of the point, and whether the
key is serialized compressed. -/
structure StacksPublicKey where
  key : FixedBytes 33
  compressed : Bool
  deriving DecidableEq, Repr

inductive TransactionPublicKeyEncoding where
  | compressed
  | uncompressed
  deriving DecidableEq, Repr

namespace TransactionPublicKeyEncoding

def toU8 : TransactionPublicKeyEncoding → UInt8
  | .compressed => 0x00
  | .uncompressed => 0x01

def fromU8 (n : UInt8) : Option TransactionPublicKeyEncoding :=
  if n = 0x00 then some .compressed else if n = 0x01 then some .uncompressed else none

@[simp] theorem fromU8_toU8 (e : TransactionPublicKeyEncoding) : fromU8 e.toU8 = some e := by
  cases e <;> decide

theorem toU8_injective : Function.Injective toU8 := fun a b h => by
  simpa using congrArg fromU8 h

end TransactionPublicKeyEncoding

inductive TransactionAuthFieldID where
  | publicKeyCompressed
  | publicKeyUncompressed
  | signatureCompressed
  | signatureUncompressed

def TransactionAuthFieldID.toU8 : TransactionAuthFieldID → UInt8
  | .publicKeyCompressed => 0x00
  | .publicKeyUncompressed => 0x01
  | .signatureCompressed => 0x02
  | .signatureUncompressed => 0x03

inductive TransactionAuthField where
  | publicKey (pubk : StacksPublicKey)
  | signature (keyEncoding : TransactionPublicKeyEncoding) (sig : MessageSignature)
  deriving DecidableEq, Repr

inductive SinglesigHashMode where
  | p2pkh
  | p2wpkh
  deriving DecidableEq, Repr

namespace SinglesigHashMode

def toU8 : SinglesigHashMode → UInt8
  | .p2pkh => 0x00
  | .p2wpkh => 0x02

def fromU8 (n : UInt8) : Option SinglesigHashMode :=
  if n = 0x00 then some .p2pkh else if n = 0x02 then some .p2wpkh else none

@[simp] theorem fromU8_toU8 (m : SinglesigHashMode) : fromU8 m.toU8 = some m := by
  cases m <;> decide

theorem toU8_injective : Function.Injective toU8 := fun a b h => by
  simpa using congrArg fromU8 h

end SinglesigHashMode

inductive MultisigHashMode where
  | p2sh
  | p2wsh
  deriving DecidableEq, Repr

namespace MultisigHashMode

def toU8 : MultisigHashMode → UInt8
  | .p2sh => 0x01
  | .p2wsh => 0x03

def fromU8 (n : UInt8) : Option MultisigHashMode :=
  if n = 0x01 then some .p2sh else if n = 0x03 then some .p2wsh else none

@[simp] theorem fromU8_toU8 (m : MultisigHashMode) : fromU8 m.toU8 = some m := by
  cases m <;> decide

theorem toU8_injective : Function.Injective toU8 := fun a b h => by
  simpa using congrArg fromU8 h

/-- The hash-mode byte tells a single-signature condition from a multi-signature one. -/
theorem toU8_ne_singlesig (m : MultisigHashMode) (m' : SinglesigHashMode) : m.toU8 ≠ m'.toU8 := by
  cases m <;> cases m' <;> decide

end MultisigHashMode

structure SinglesigSpendingCondition where
  hashMode : SinglesigHashMode
  signer : Hash160
  nonce : UInt64
  feeRate : UInt64
  keyEncoding : TransactionPublicKeyEncoding
  signature : MessageSignature
  deriving DecidableEq, Repr

structure MultisigSpendingCondition where
  hashMode : MultisigHashMode
  signer : Hash160
  nonce : UInt64
  feeRate : UInt64
  fields : List TransactionAuthField
  signaturesRequired : UInt16
  deriving DecidableEq, Repr

inductive TransactionSpendingCondition where
  | singlesig (data : SinglesigSpendingCondition)
  | multisig (data : MultisigSpendingCondition)
  deriving DecidableEq, Repr

inductive TransactionAuthFlags where
  | authStandard
  | authSponsored

def TransactionAuthFlags.toU8 : TransactionAuthFlags → UInt8
  | .authStandard => 0x04
  | .authSponsored => 0x05

inductive TransactionAuth where
  | standard (origin : TransactionSpendingCondition)
  | sponsored (origin sponsor : TransactionSpendingCondition)
  deriving DecidableEq, Repr

/-! ### Encoding -/

/-- `write_next` of a `u64`. -/
def writeU64 (n : UInt64) : Bytes := beBytes 8 n.toNat

def writeU16 (n : UInt16) : Bytes := beBytes 2 n.toNat

theorem writeU64_injective : Function.Injective writeU64 := fun a b h =>
  UInt64.toNat_inj.mp (beBytes_inj_of_lt a.toNat_lt b.toNat_lt h)

theorem writeU16_injective : Function.Injective writeU16 := fun a b h =>
  UInt16.toNat_inj.mp (beBytes_inj_of_lt a.toNat_lt b.toNat_lt h)

def TransactionAuthField.consensusSerialize : TransactionAuthField → Bytes
  | .publicKey pubk =>
    let fieldId : TransactionAuthFieldID :=
      if pubk.compressed then .publicKeyCompressed else .publicKeyUncompressed
    -- `StacksPublicKeyBuffer::from_public_key` writes the compressed encoding
    fieldId.toU8 :: pubk.key.bytes
  | .signature keyEncoding sig =>
    let fieldId : TransactionAuthFieldID :=
      if keyEncoding == .compressed then .signatureCompressed else .signatureUncompressed
    fieldId.toU8 :: sig.bytes

def SinglesigSpendingCondition.consensusSerialize (c : SinglesigSpendingCondition) : Bytes :=
  c.hashMode.toU8 :: c.signer.bytes ++ writeU64 c.nonce ++ writeU64 c.feeRate ++
    c.keyEncoding.toU8 :: c.signature.bytes

def MultisigSpendingCondition.consensusSerialize (c : MultisigSpendingCondition) :
    Outcome NetError Bytes := do
  let fields ← writeVec (fun f => ok f.consensusSerialize) c.fields
  ok (c.hashMode.toU8 :: c.signer.bytes ++ writeU64 c.nonce ++ writeU64 c.feeRate ++ fields ++
    writeU16 c.signaturesRequired)

def TransactionSpendingCondition.consensusSerialize :
    TransactionSpendingCondition → Outcome NetError Bytes
  | .singlesig data => ok data.consensusSerialize
  | .multisig data => data.consensusSerialize

def TransactionAuth.consensusSerialize : TransactionAuth → Outcome NetError Bytes
  | .standard origin => do
    ok (TransactionAuthFlags.authStandard.toU8 :: (← origin.consensusSerialize))
  | .sponsored origin sponsor => do
    ok (TransactionAuthFlags.authSponsored.toU8 :: (← origin.consensusSerialize) ++
      (← sponsor.consensusSerialize))

/-! ### Decoding -/

section Decode

variable (secp : Secp256k1) (sizes : MemSizes)

/-- `StacksPublicKeyBuffer::to_public_key`, then `set_compressed`. -/
def toPublicKey (buf : FixedBytes 33) (compressed : Bool) : Outcome NetError StacksPublicKey :=
  if secp.isPoint buf.bytes then ok ⟨buf, compressed⟩
  else err (.deserializeError "Failed to decode Stacks public key")

def TransactionAuthField.consensusDeserialize : Decoder TransactionAuthField := fun r => do
  let (fieldId, r) ← readU8 r
  if fieldId = TransactionAuthFieldID.publicKeyCompressed.toU8 then do
    let (pubkeyBuf, r) ← readFixed 33 r
    ok (.publicKey (← toPublicKey secp pubkeyBuf true), r)
  else if fieldId = TransactionAuthFieldID.publicKeyUncompressed.toU8 then do
    let (pubkeyBuf, r) ← readFixed 33 r
    ok (.publicKey (← toPublicKey secp pubkeyBuf false), r)
  else if fieldId = TransactionAuthFieldID.signatureCompressed.toU8 then do
    let (sig, r) ← readFixed 65 r
    ok (.signature .compressed sig, r)
  else if fieldId = TransactionAuthFieldID.signatureUncompressed.toU8 then do
    let (sig, r) ← readFixed 65 r
    ok (.signature .uncompressed sig, r)
  else err (.deserializeError "Failed to parse auth field: unkonwn auth field ID")

def SinglesigSpendingCondition.consensusDeserialize : Decoder SinglesigSpendingCondition :=
  fun r => do
    let (hashModeU8, r) ← readU8 r
    let hashMode ← ofOption
      (.deserializeError "Failed to parse singlesig spending condition: unknown hash mode")
      (SinglesigHashMode.fromU8 hashModeU8)
    let (signer, r) ← readFixed 20 r
    let (nonce, r) ← readInt 8 r
    let (feeRate, r) ← readInt 8 r
    let (keyEncodingU8, r) ← readU8 r
    let keyEncoding ← ofOption
      (.deserializeError "Failed to parse singlesig spending condition: unknown key encoding")
      (TransactionPublicKeyEncoding.fromU8 keyEncodingU8)
    let (signature, r) ← readFixed 65 r
    -- sanity check -- must be compressed if we're using p2wpkh
    if hashMode = .p2wpkh ∧ keyEncoding ≠ .compressed then
      err (.deserializeError
        "Failed to parse singlesig spending condition: incomaptible hash mode and key encoding")
    else ok (⟨hashMode, signer, UInt64.ofNat nonce, UInt64.ofNat feeRate, keyEncoding, signature⟩, r)

/-- The loop over the fields in `MultisigSpendingCondition::consensus_deserialize`:
the number of signatures given, as a `u16` that must not overflow, and
whether any key or signature is uncompressed. -/
def tallyFields : List TransactionAuthField → Nat → Bool → Outcome NetError (Nat × Bool)
  | [], numSigsGiven, haveUncompressed => ok (numSigsGiven, haveUncompressed)
  | .signature keyEncoding _ :: fields, numSigsGiven, haveUncompressed => do
    let numSigsGiven ← ofOption
      (.deserializeError "Failed to parse multisig spending condition: too many signatures")
      (checkedAdd 16 numSigsGiven 1)
    tallyFields fields numSigsGiven (haveUncompressed || keyEncoding == .uncompressed)
  | .publicKey pubk :: fields, numSigsGiven, haveUncompressed =>
    tallyFields fields numSigsGiven (haveUncompressed || !pubk.compressed)

def MultisigSpendingCondition.consensusDeserialize : Decoder MultisigSpendingCondition :=
  fun r => do
    let (hashModeU8, r) ← readU8 r
    let hashMode ← ofOption
      (.deserializeError "Failed to parse multisig spending condition: unknown hash mode")
      (MultisigHashMode.fromU8 hashModeU8)
    let (signer, r) ← readFixed 20 r
    let (nonce, r) ← readInt 8 r
    let (feeRate, r) ← readInt 8 r
    let (fields, r) ← boundRead MAX_MESSAGE_LEN
      (readVec sizes.authField (TransactionAuthField.consensusDeserialize secp)) r
    let (signaturesRequired, r) ← readInt 2 r
    let (numSigsGiven, haveUncompressed) ← tallyFields fields 0 false
    -- must be given the right number of signatures
    if numSigsGiven ≠ signaturesRequired then
      err (.deserializeError "Failed to parse multisig spending condition: got wrong number of sigs")
    -- must all be compressed if we're using P2WSH
    else if haveUncompressed ∧ hashMode = .p2wsh then
      err (.deserializeError
        "Failed to parse multisig spending condition: expected compressed keys only")
    else ok (⟨hashMode, signer, UInt64.ofNat nonce, UInt64.ofNat feeRate, fields,
      UInt16.ofNat signaturesRequired⟩, r)

/-- `TransactionSpendingCondition::consensus_deserialize`: peek the hash mode
byte, then read the whole condition by the kind it names. -/
def TransactionSpendingCondition.consensusDeserialize : Decoder TransactionSpendingCondition :=
  fun r => do
    let (hashModeU8, r') ← readU8 r
    -- `peek_buf.chain(fd)`: the byte read goes back in front of the stream
    let rrd := hashModeU8 :: r'
    if (SinglesigHashMode.fromU8 hashModeU8).isSome then do
      let (cond, r) ← SinglesigSpendingCondition.consensusDeserialize rrd
      ok (.singlesig cond, r)
    else if (MultisigHashMode.fromU8 hashModeU8).isSome then do
      let (cond, r) ← MultisigSpendingCondition.consensusDeserialize secp sizes rrd
      ok (.multisig cond, r)
    else err (.deserializeError "Failed to parse spending condition: invalid hash mode")

def TransactionAuth.consensusDeserialize : Decoder TransactionAuth := fun r => do
  let (typeId, r) ← readU8 r
  if typeId = TransactionAuthFlags.authStandard.toU8 then do
    let (originAuth, r) ← TransactionSpendingCondition.consensusDeserialize secp sizes r
    ok (.standard originAuth, r)
  else if typeId = TransactionAuthFlags.authSponsored.toU8 then do
    let (originAuth, r) ← TransactionSpendingCondition.consensusDeserialize secp sizes r
    let (sponsorAuth, r) ← TransactionSpendingCondition.consensusDeserialize secp sizes r
    ok (.sponsored originAuth sponsorAuth, r)
  else err (.deserializeError "Failed to parse transaction authorization: unrecognized auth flags")

end Decode

end BlockstackCore
