import BlockstackCore.Chainstate.Stacks.Auth

/-!
# Transactions and their codec

`StacksTransaction` (`chainstate/stacks/transaction.rs`): a version, a chain
id, an authorization, an anchor mode, post-conditions and a payload, written
in that order. `consensus_deserialize_with_len` reads them through a
`BoundReader` of `MAX_TRANSACTION_LEN` bytes, checks the anchor mode and the
post-condition mode, and returns the transaction with the number of bytes it
read.

Clarity values travel in two places: the arguments of a contract call and
the asset of a non-fungible post-condition. Both are read by
`Value::deserialize_read` without an expected type, so neither can be more
than 16 levels deep (`deserializeRead_nesting`): `decoded_values_nesting`
says this of every transaction the decoder returns.

`StacksString::is_clarity_variable`, which runs the Clarity lexer on a
function name, is a parameter of the decoder.
-/

namespace BlockstackCore

open ByteCodec Outcome

def MAX_TRANSACTION_LEN : Nat := MAX_MESSAGE_LEN

def CONTRACT_MIN_NAME_LENGTH : Nat := 5

def CONTRACT_MAX_NAME_LENGTH : Nat := 40

structure StacksAddress where
  version : UInt8
  bytes : Hash160
  deriving DecidableEq, Repr

/-- `StacksString`: printable ASCII text. -/
structure StacksString where
  bytes : Bytes
  deriving DecidableEq, Repr

structure AssetInfo where
  contractAddress : StacksAddress
  contractName : ContractName
  assetName : ClarityName
  deriving DecidableEq, Repr

inductive PostConditionPrincipal where
  | origin
  | standard (address : StacksAddress)
  | contract (address : StacksAddress) (contractName : ContractName)
  deriving DecidableEq, Repr

inductive FungibleConditionCode where
  | sentEq
  | sentGt
  | sentGe
  | sentLt
  | sentLe
  deriving DecidableEq, Repr

namespace FungibleConditionCode

def toU8 : FungibleConditionCode → UInt8
  | .sentEq => 0x01
  | .sentGt => 0x02
  | .sentGe => 0x03
  | .sentLt => 0x04
  | .sentLe => 0x05

def fromU8 (b : UInt8) : Option FungibleConditionCode :=
  if b = 0x01 then some .sentEq else if b = 0x02 then some .sentGt
  else if b = 0x03 then some .sentGe else if b = 0x04 then some .sentLt
  else if b = 0x05 then some .sentLe else none

end FungibleConditionCode

inductive NonfungibleConditionCode where
  | sent
  | notSent
  deriving DecidableEq, Repr

namespace NonfungibleConditionCode

def toU8 : NonfungibleConditionCode → UInt8
  | .sent => 0x10
  | .notSent => 0x11

def fromU8 (b : UInt8) : Option NonfungibleConditionCode :=
  if b = 0x10 then some .sent else if b = 0x11 then some .notSent else none

end NonfungibleConditionCode

inductive TransactionPostCondition where
  | stx (principal : PostConditionPrincipal) (conditionCode : FungibleConditionCode) (amount : UInt64)
  | fungible (principal : PostConditionPrincipal) (asset : AssetInfo)
      (conditionCode : FungibleConditionCode) (amount : UInt64)
  | nonfungible (principal : PostConditionPrincipal) (asset : AssetInfo) (assetValue : Value)
      (conditionCode : NonfungibleConditionCode)
  deriving DecidableEq, Repr

structure TransactionContractCall where
  address : StacksAddress
  contractName : ContractName
  functionName : ClarityName
  functionArgs : List Value
  deriving DecidableEq, Repr

structure TransactionSmartContract where
  name : ContractName
  codeBody : StacksString
  deriving DecidableEq, Repr

structure StacksMicroblockHeader where
  version : UInt8
  sequence : UInt16
  prevBlock : FixedBytes 32
  txMerkleRoot : FixedBytes 32
  signature : MessageSignature
  deriving DecidableEq, Repr

inductive TransactionPayload where
  | tokenTransfer (recipient : PrincipalData) (amount : UInt64) (memo : FixedBytes 34)
  | contractCall (cc : TransactionContractCall)
  | smartContract (sc : TransactionSmartContract)
  | poisonMicroblock (h1 h2 : StacksMicroblockHeader)
  | coinbase (payload : FixedBytes 32)
  deriving DecidableEq, Repr

inductive TransactionVersion where
  | mainnet
  | testnet
  deriving DecidableEq, Repr

def TransactionVersion.toU8 : TransactionVersion → UInt8
  | .mainnet => 0x00
  | .testnet => 0x80

theorem TransactionVersion.toU8_injective : Function.Injective TransactionVersion.toU8 := by
  intro a b
  cases a <;> cases b <;> decide

inductive TransactionAnchorMode where
  | onChainOnly
  | offChainOnly
  | any
  deriving DecidableEq, Repr

def TransactionAnchorMode.toU8 : TransactionAnchorMode → UInt8
  | .onChainOnly => 1
  | .offChainOnly => 2
  | .any => 3

theorem TransactionAnchorMode.toU8_injective : Function.Injective TransactionAnchorMode.toU8 := by
  intro a b
  cases a <;> cases b <;> decide

inductive TransactionPostConditionMode where
  | allow
  | deny
  deriving DecidableEq, Repr

def TransactionPostConditionMode.toU8 : TransactionPostConditionMode → UInt8
  | .allow => 0x01
  | .deny => 0x02

theorem TransactionPostConditionMode.toU8_injective :
    Function.Injective TransactionPostConditionMode.toU8 := by
  intro a b
  cases a <;> cases b <;> decide

structure StacksTransaction where
  version : TransactionVersion
  chainId : UInt32
  auth : TransactionAuth
  anchorMode : TransactionAnchorMode
  postConditionMode : TransactionPostConditionMode
  postConditions : List TransactionPostCondition
  payload : TransactionPayload
  deriving DecidableEq, Repr

/-- The value a post-condition carries: the asset of a non-fungible one. -/
def TransactionPostCondition.values : TransactionPostCondition → List Value
  | .nonfungible _ _ assetValue _ => [assetValue]
  | _ => []

/-- The values a payload carries: the arguments of a contract call. -/
def TransactionPayload.values : TransactionPayload → List Value
  | .contractCall cc => cc.functionArgs
  | _ => []

/-- The Clarity values a transaction carries. -/
def StacksTransaction.values (tx : StacksTransaction) : List Value :=
  tx.postConditions.flatMap TransactionPostCondition.values ++ tx.payload.values

/-! ### Encoding -/

def StacksAddress.consensusSerialize (a : StacksAddress) : Bytes := a.version :: a.bytes.bytes

/-- The encoding of a guarded name: its length as one byte, if `lengthOk`
holds of it, then its bytes. -/
def writeName (bytes : Bytes) (lengthOk : Nat → Bool) (lengthError : String) :
    Outcome NetError Bytes :=
  if !lengthOk bytes.length then err (.serializeError lengthError)
  else ok (UInt8.ofNat bytes.length :: bytes)

def ClarityName.consensusSerialize (n : ClarityName) : Outcome NetError Bytes :=
  writeName n.bytes (fun len => decide (len ≤ MAX_STRING_LEN))
    "Failed to serialize clarity name: too long"

def ContractName.consensusSerialize (n : ContractName) : Outcome NetError Bytes :=
  writeName n.bytes
    (fun len => decide (CONTRACT_MIN_NAME_LENGTH ≤ len ∧ len ≤ CONTRACT_MAX_NAME_LENGTH))
    "Failed to serialize contract name: too short or too long"

def StacksString.consensusSerialize (s : StacksString) : Outcome NetError Bytes :=
  writeVec (fun b => ok [b]) s.bytes

/-- `consensus_serialize` of a value: `serialize_write`, whose `none` is a panic. -/
def Value.consensusSerialize (v : Value) : Outcome NetError Bytes :=
  match v.serializeWrite with
  | .some b => ok b
  | .none => .panic

def AssetInfo.consensusSerialize (a : AssetInfo) : Outcome NetError Bytes := do
  ok (a.contractAddress.consensusSerialize ++ (← a.contractName.consensusSerialize) ++
    (← a.assetName.consensusSerialize))

def PostConditionPrincipal.consensusSerialize : PostConditionPrincipal → Outcome NetError Bytes
  | .origin => ok [0x01]
  | .standard address => ok (0x02 :: address.consensusSerialize)
  | .contract address contractName => do
    ok (0x03 :: address.consensusSerialize ++ (← contractName.consensusSerialize))

def TransactionPostCondition.consensusSerialize :
    TransactionPostCondition → Outcome NetError Bytes
  | .stx principal conditionCode amount => do
    ok (0 :: (← principal.consensusSerialize) ++ conditionCode.toU8 :: writeU64 amount)
  | .fungible principal asset conditionCode amount => do
    ok (1 :: (← principal.consensusSerialize) ++ (← asset.consensusSerialize) ++
      conditionCode.toU8 :: writeU64 amount)
  | .nonfungible principal asset assetValue conditionCode => do
    ok (2 :: (← principal.consensusSerialize) ++ (← asset.consensusSerialize) ++
      (← assetValue.consensusSerialize) ++ [conditionCode.toU8])

def TransactionContractCall.consensusSerialize (cc : TransactionContractCall) :
    Outcome NetError Bytes := do
  ok (cc.address.consensusSerialize ++ (← cc.contractName.consensusSerialize) ++
    (← cc.functionName.consensusSerialize) ++ (← writeVec Value.consensusSerialize cc.functionArgs))

def StacksMicroblockHeader.consensusSerialize (h : StacksMicroblockHeader) : Bytes :=
  h.version :: writeU16 h.sequence ++ h.prevBlock.bytes ++ h.txMerkleRoot.bytes ++ h.signature.bytes

def TransactionPayload.consensusSerialize : TransactionPayload → Outcome NetError Bytes
  | .tokenTransfer address amount memo =>
    ok (0 :: address.serializeWrite ++ writeU64 amount ++ memo.bytes)
  | .contractCall cc => do ok (2 :: (← cc.consensusSerialize))
  | .smartContract sc => do
    ok (1 :: (← sc.name.consensusSerialize) ++ (← sc.codeBody.consensusSerialize))
  | .poisonMicroblock h1 h2 => ok (3 :: h1.consensusSerialize ++ h2.consensusSerialize)
  | .coinbase buf => ok (4 :: buf.bytes)

def StacksTransaction.consensusSerialize (tx : StacksTransaction) : Outcome NetError Bytes := do
  ok (tx.version.toU8 :: beBytes 4 tx.chainId.toNat ++ (← tx.auth.consensusSerialize) ++
    [tx.anchorMode.toU8, tx.postConditionMode.toU8] ++
    (← writeVec TransactionPostCondition.consensusSerialize tx.postConditions) ++
    (← tx.payload.consensusSerialize))

/-! ### Decoding -/

/-- `Display` of a serialization error, which `e.to_string()` gives. -/
def SerializationError.display : SerializationError → String
  | .ioError _ => "Serialization error caused by IO"
  | .badTypeError _ => "Deserialization error, bad type"
  | .deserializationError msg => "Deserialization error: " ++ msg
  | .deserializeExpected _ => "Deserialization expected the type of the input"

def StacksAddress.consensusDeserialize : Decoder StacksAddress := fun r => do
  let (version, r) ← readU8 r
  let (hash160, r) ← readFixed 20 r
  ok (⟨version, hash160⟩, r)

/-- The decoding of a guarded name: a length byte that `lengthOk` accepts,
that many bytes of UTF-8, and `try_from` of them. -/
def readName {α : Type} (tryFrom : Bytes → Option α) (lengthOk : Nat → Bool)
    (lengthError utf8Error nameError : String) : Decoder α := fun r => do
  let (lenByte, r) ← readU8 r
  if !lengthOk lenByte.toNat then err (.deserializeError lengthError)
  else
    let (bytes, r) ← match readExact lenByte.toNat r with
      | .ok read => ok read
      | .error e => err (.readError e)
    if !utf8Valid bytes then err (.deserializeError utf8Error)
    else
      match tryFrom bytes with
      | some name => ok (name, r)
      | none => err (.deserializeError nameError)

def ClarityName.consensusDeserialize : Decoder ClarityName :=
  readName ClarityName.tryFrom (fun len => decide (len ≤ MAX_STRING_LEN))
    "Failed to deserialize clarity name: too long"
    "Failed to parse Clarity name: could not contruct from utf8"
    "Failed to parse Clarity name"

def ContractName.consensusDeserialize : Decoder ContractName :=
  readName ContractName.tryFrom
    (fun len => decide (CONTRACT_MIN_NAME_LENGTH ≤ len ∧ len ≤ CONTRACT_MAX_NAME_LENGTH))
    "Failed to deserialize contract name: too short or too long"
    "Failed to parse Contract name: could not construct from utf8"
    "Failed to parse Contract name"

/-- `StacksString::is_valid_string`: ASCII, and printable or a tab or a newline. -/
def StacksString.isValidString (bytes : Bytes) : Bool :=
  bytes.all fun c => c < 0x80 && !((c < 0x20 && c != 9 && c != 10) || c > 0x7e)

def StacksString.fromString (s : Bytes) : Option StacksString :=
  if !StacksString.isValidString s then none else some ⟨s⟩

def TransactionPayload.newSmartContract (name contract : Bytes) : Option TransactionPayload :=
  match ContractName.tryFrom name, StacksString.fromString contract with
  | some sName, some sBody => some (.smartContract ⟨sName, sBody⟩)
  | _, _ => none

/-- `StacksTransaction::new`: chain 0, no post-conditions, and the anchor
mode the payload needs. -/
def StacksTransaction.new (version : TransactionVersion) (auth : TransactionAuth)
    (payload : TransactionPayload) : StacksTransaction :=
  let anchorMode : TransactionAnchorMode :=
    match payload with
    | .coinbase _ => .onChainOnly
    | .poisonMicroblock _ _ => .onChainOnly
    | _ => .any
  ⟨version, 0, auth, anchorMode, .deny, [], payload⟩

def StacksString.consensusDeserialize : Decoder StacksString := fun r => do
  let (bytes, r) ← boundRead MAX_MESSAGE_LEN (readVec 1 readU8) r
  if !utf8Valid bytes then
    err (.deserializeError "Invalid Stacks string: could not build from utf8")
  else if !StacksString.isValidString bytes then
    err (.deserializeError "Invalid Stacks string: non-printable or non-ASCII string")
  else ok (⟨bytes⟩, r)

/-- `Value::consensus_deserialize`: `deserialize_read` with no expected type. -/
def Value.consensusDeserialize : Decoder Value := fun r =>
  match deserializeRead r Option.none with
  | ok read => ok read
  | err (.ioError e) => err (.readError e)
  | err _ => err (.deserializeError "Failed to decode clarity value")
  | .panic => .panic

def PrincipalData.innerConsensusDeserialize (r : Bytes) :
    Outcome SerializationError (PrincipalData × Bytes) := do
  let (header, r) ← readByte r
  let pre ← ofOption (.deserializationError "Bad principal prefix") (TypePrefix.fromU8 header)
  match pre with
  | .principalStandard => do
    let (p, r) ← StandardPrincipalData.deserializeRead r
    ok (.standard p, r)
  | .principalContract => do
    let (issuer, r) ← StandardPrincipalData.deserializeRead r
    let (name, r) ← ContractName.deserializeRead r
    ok (.contract ⟨issuer, name⟩, r)
  | _ => err (.deserializationError "Bad principal prefix")

def PrincipalData.consensusDeserialize : Decoder PrincipalData := fun r =>
  (PrincipalData.innerConsensusDeserialize r).mapErr fun e => .deserializeError e.display

def AssetInfo.consensusDeserialize : Decoder AssetInfo := fun r => do
  let (contractAddress, r) ← StacksAddress.consensusDeserialize r
  let (contractName, r) ← ContractName.consensusDeserialize r
  let (assetName, r) ← ClarityName.consensusDeserialize r
  ok (⟨contractAddress, contractName, assetName⟩, r)

def PostConditionPrincipal.consensusDeserialize : Decoder PostConditionPrincipal := fun r => do
  let (principalId, r) ← readU8 r
  if principalId = 0x01 then ok (.origin, r)
  else if principalId = 0x02 then do
    let (addr, r) ← StacksAddress.consensusDeserialize r
    ok (.standard addr, r)
  else if principalId = 0x03 then do
    let (addr, r) ← StacksAddress.consensusDeserialize r
    let (contractName, r) ← ContractName.consensusDeserialize r
    ok (.contract addr contractName, r)
  else err (.deserializeError "Failed to parse transaction: unknown post condition principal ID")

def TransactionPostCondition.consensusDeserialize : Decoder TransactionPostCondition :=
  fun r => do
    let (assetInfoId, r) ← readU8 r
    if assetInfoId = 0 then do
      let (principal, r) ← PostConditionPrincipal.consensusDeserialize r
      let (conditionU8, r) ← readU8 r
      let (amount, r) ← readInt 8 r
      let conditionCode ← ofOption
        (.deserializeError "Failed to parse transaction: Failed to parse STX fungible condition code")
        (FungibleConditionCode.fromU8 conditionU8)
      ok (.stx principal conditionCode (UInt64.ofNat amount), r)
    else if assetInfoId = 1 then do
      let (principal, r) ← PostConditionPrincipal.consensusDeserialize r
      let (asset, r) ← AssetInfo.consensusDeserialize r
      let (conditionU8, r) ← readU8 r
      let (amount, r) ← readInt 8 r
      let conditionCode ← ofOption
        (.deserializeError "Failed to parse transaction: Failed to parse FungibleAsset condition code")
        (FungibleConditionCode.fromU8 conditionU8)
      ok (.fungible principal asset conditionCode (UInt64.ofNat amount), r)
    else if assetInfoId = 2 then do
      let (principal, r) ← PostConditionPrincipal.consensusDeserialize r
      let (asset, r) ← AssetInfo.consensusDeserialize r
      let (assetValue, r) ← Value.consensusDeserialize r
      let (conditionU8, r) ← readU8 r
      let conditionCode ← ofOption
        (.deserializeError
          "Failed to parse transaction: Failed to parse NonfungibleAsset condition code")
        (NonfungibleConditionCode.fromU8 conditionU8)
      ok (.nonfungible principal asset assetValue conditionCode, r)
    else err (.deserializeError "Failed to aprse transaction: unknown asset info ID")

section Decode

variable (secp : Secp256k1) (sizes : MemSizes) (isClarityVariable : ClarityName → Bool)

def TransactionContractCall.consensusDeserialize : Decoder TransactionContractCall := fun r => do
  let (address, r) ← StacksAddress.consensusDeserialize r
  let (contractName, r) ← ContractName.consensusDeserialize r
  let (functionName, r) ← ClarityName.consensusDeserialize r
  let (functionArgs, r) ← boundRead MAX_MESSAGE_LEN (readVec sizes.value Value.consensusDeserialize) r
  -- function name must be valid Clarity variable
  if !isClarityVariable functionName then
    err (.deserializeError
      "Failed to parse transaction: invalid function name -- not a Clarity variable")
  else ok (⟨address, contractName, functionName, functionArgs⟩, r)

def TransactionSmartContract.consensusDeserialize : Decoder TransactionSmartContract := fun r => do
  let (name, r) ← ContractName.consensusDeserialize r
  let (codeBody, r) ← StacksString.consensusDeserialize r
  ok (⟨name, codeBody⟩, r)

def StacksMicroblockHeader.consensusDeserialize : Decoder StacksMicroblockHeader := fun r => do
  let (version, r) ← readU8 r
  let (sequence, r) ← readInt 2 r
  let (prevBlock, r) ← readFixed 32 r
  let (txMerkleRoot, r) ← readFixed 32 r
  let (signature, r) ← readFixed 65 r
  -- signature must be well-formed
  if !secp.isRecoverable signature.bytes then
    err (.deserializeError "Failed to parse signature")
  else ok (⟨version, UInt16.ofNat sequence, prevBlock, txMerkleRoot, signature⟩, r)

def TransactionPayload.consensusDeserialize : Decoder TransactionPayload := fun r => do
  let (typeId, r) ← readU8 r
  if typeId = 0 then do
    let (principal, r) ← PrincipalData.consensusDeserialize r
    let (amount, r) ← readInt 8 r
    let (memo, r) ← readFixed 34 r
    ok (.tokenTransfer principal (UInt64.ofNat amount) memo, r)
  else if typeId = 2 then do
    let (payload, r) ← TransactionContractCall.consensusDeserialize sizes isClarityVariable r
    ok (.contractCall payload, r)
  else if typeId = 1 then do
    let (payload, r) ← TransactionSmartContract.consensusDeserialize r
    ok (.smartContract payload, r)
  else if typeId = 3 then do
    let (h1, r) ← StacksMicroblockHeader.consensusDeserialize secp r
    let (h2, r) ← StacksMicroblockHeader.consensusDeserialize secp r
    -- must differ in some field
    if h1 = h2 then
      err (.deserializeError "Failed to parse transaction -- microblock headers match")
    -- must have the same sequence number or same block parent
    else if h1.sequence ≠ h2.sequence ∧ h1.prevBlock ≠ h2.prevBlock then
      err (.deserializeError
        "Failed to parse transaction -- microblock headers do not identify a fork")
    else ok (.poisonMicroblock h1 h2, r)
  else if typeId = 4 then do
    let (payload, r) ← readFixed 32 r
    ok (.coinbase payload, r)
  else err (.deserializeError "Failed to parse transaction -- unknown payload ID")

/-- The `match anchor_mode_u8` of `consensus_deserialize_with_len`. -/
def parseAnchorMode (anchorModeU8 : UInt8) : Outcome NetError TransactionAnchorMode :=
  if anchorModeU8 = TransactionAnchorMode.offChainOnly.toU8 then ok .offChainOnly
  else if anchorModeU8 = TransactionAnchorMode.onChainOnly.toU8 then ok .onChainOnly
  else if anchorModeU8 = TransactionAnchorMode.any.toU8 then ok .any
  else err (.deserializeError "Failed to parse transaction: invalid anchor mode")

/-- A coinbase, or a proof of a poisoned microblock stream, must be anchored. -/
def checkAnchored (payload : TransactionPayload) (anchorMode : TransactionAnchorMode) :
    Outcome NetError Unit :=
  match payload with
  | .poisonMicroblock _ _ =>
    if anchorMode ≠ .onChainOnly then
      err (.deserializeError "Failed to parse transaction: invalid anchor mode for PoisonMicroblock")
    else ok ()
  | .coinbase _ =>
    if anchorMode ≠ .onChainOnly then
      err (.deserializeError "Failed to parse transaction: invalid anchor mode for Coinbase")
    else ok ()
  | _ => ok ()

/-- The `match post_condition_mode_u8` of `consensus_deserialize_with_len`. -/
def parsePostConditionMode (postConditionModeU8 : UInt8) :
    Outcome NetError TransactionPostConditionMode :=
  if postConditionModeU8 = TransactionPostConditionMode.allow.toU8 then ok .allow
  else if postConditionModeU8 = TransactionPostConditionMode.deny.toU8 then ok .deny
  else err (.deserializeError "Failed to parse transaction: invalid post-condition mode")

/-- The checks of `consensus_deserialize_with_len` once every field is read:
the version bit, the anchor mode, that a coinbase or a poisoned-microblock
proof is anchored, and the post-condition mode. -/
def StacksTransaction.fromParts (versionU8 : UInt8) (chainId : UInt32) (auth : TransactionAuth)
    (anchorModeU8 postConditionModeU8 : UInt8) (postConditions : List TransactionPostCondition)
    (payload : TransactionPayload) : Outcome NetError StacksTransaction := do
  let version : TransactionVersion := if versionU8 &&& 0x80 = 0 then .mainnet else .testnet
  let anchorMode ← parseAnchorMode anchorModeU8
  checkAnchored payload anchorMode
  let postConditionMode ← parsePostConditionMode postConditionModeU8
  ok ⟨version, chainId, auth, anchorMode, postConditionMode, postConditions, payload⟩

/-- The reads of `consensus_deserialize_with_len`, inside its bound. -/
def StacksTransaction.readFields : Decoder StacksTransaction := fun r => do
  let (versionU8, r) ← readU8 r
  let (chainId, r) ← readInt 4 r
  let (auth, r) ← TransactionAuth.consensusDeserialize secp sizes r
  let (anchorModeU8, r) ← readU8 r
  let (postConditionModeU8, r) ← readU8 r
  let (postConditions, r) ← readVec sizes.postCondition TransactionPostCondition.consensusDeserialize r
  let (payload, r) ← TransactionPayload.consensusDeserialize secp sizes isClarityVariable r
  let tx ← StacksTransaction.fromParts versionU8 (UInt32.ofNat chainId) auth anchorModeU8
    postConditionModeU8 postConditions payload
  ok (tx, r)

/-- `consensus_deserialize_with_len`: the transaction, and how many bytes the
bounded reader gave out. -/
def StacksTransaction.consensusDeserializeWithLen (r : Bytes) :
    Outcome NetError (StacksTransaction × Nat) := do
  let bounded := r.take MAX_TRANSACTION_LEN
  let (tx, rest) ← StacksTransaction.readFields secp sizes isClarityVariable bounded
  ok (tx, bounded.length - rest.length)

end Decode

/-! ### How deep the values of a decoded transaction are -/

section Nesting

variable {secp : Secp256k1} {sizes : MemSizes} {isClarityVariable : ClarityName → Bool}

theorem value_consensusDeserialize_nesting :
    ReadsOnly (fun v => v.nesting ≤ 16) Value.consensusDeserialize := by
  intro r v rest h
  unfold Value.consensusDeserialize at h
  split at h
  · rename_i read hread
    cases h
    exact Value.deserializeRead_nesting hread
  all_goals cases h

theorem postCondition_consensusDeserialize_nesting :
    ReadsOnly (fun pc => ∀ v ∈ pc.values, v.nesting ≤ 16)
      TransactionPostCondition.consensusDeserialize := by
  intro r pc rest h
  unfold TransactionPostCondition.consensusDeserialize at h
  obtain ⟨⟨assetInfoId, r₁⟩, -, h⟩ := bind_eq_ok.mp h
  dsimp only at h
  -- only the non-fungible arm reads a value; the others carry none
  split_ifs at h with h0 h1 h2
  · obtain ⟨_, -, h⟩ := bind_eq_ok.mp h
    obtain ⟨_, -, h⟩ := bind_eq_ok.mp h
    obtain ⟨_, -, h⟩ := bind_eq_ok.mp h
    obtain ⟨_, -, h⟩ := bind_eq_ok.mp h
    simp only [ok.injEq, Prod.mk.injEq] at h
    obtain ⟨rfl, -⟩ := h
    simp [TransactionPostCondition.values]
  · obtain ⟨_, -, h⟩ := bind_eq_ok.mp h
    obtain ⟨_, -, h⟩ := bind_eq_ok.mp h
    obtain ⟨_, -, h⟩ := bind_eq_ok.mp h
    obtain ⟨_, -, h⟩ := bind_eq_ok.mp h
    obtain ⟨_, -, h⟩ := bind_eq_ok.mp h
    simp only [ok.injEq, Prod.mk.injEq] at h
    obtain ⟨rfl, -⟩ := h
    simp [TransactionPostCondition.values]
  · obtain ⟨_, -, h⟩ := bind_eq_ok.mp h
    obtain ⟨_, -, h⟩ := bind_eq_ok.mp h
    obtain ⟨⟨assetValue, r₂⟩, hvalue, h⟩ := bind_eq_ok.mp h
    obtain ⟨_, -, h⟩ := bind_eq_ok.mp h
    obtain ⟨_, -, h⟩ := bind_eq_ok.mp h
    simp only [ok.injEq, Prod.mk.injEq] at h
    obtain ⟨rfl, -⟩ := h
    have hle := value_consensusDeserialize_nesting _ _ _ hvalue
    simpa [TransactionPostCondition.values] using hle

theorem contractCall_consensusDeserialize_nesting :
    ReadsOnly (fun cc => ∀ v ∈ cc.functionArgs, v.nesting ≤ 16)
      (TransactionContractCall.consensusDeserialize sizes isClarityVariable) := by
  intro r cc rest h
  unfold TransactionContractCall.consensusDeserialize at h
  obtain ⟨_, -, h⟩ := bind_eq_ok.mp h
  obtain ⟨_, -, h⟩ := bind_eq_ok.mp h
  obtain ⟨_, -, h⟩ := bind_eq_ok.mp h
  obtain ⟨⟨functionArgs, r₄⟩, hargs, h⟩ := bind_eq_ok.mp h
  dsimp only at h
  split_ifs at h
  simp only [ok.injEq, Prod.mk.injEq] at h
  obtain ⟨rfl, -⟩ := h
  exact boundRead_forall (readNextVec_forall value_consensusDeserialize_nesting) _ _ _ hargs

/-- The arguments of a decoded contract call, the only payload that
carries values. -/
theorem payload_consensusDeserialize_nesting :
    ReadsOnly (fun p => ∀ v ∈ p.values, v.nesting ≤ 16)
      (TransactionPayload.consensusDeserialize secp sizes isClarityVariable) := by
  intro r p rest h
  unfold TransactionPayload.consensusDeserialize at h
  obtain ⟨⟨typeId, r₁⟩, -, h⟩ := bind_eq_ok.mp h
  dsimp only at h
  split_ifs at h with h0 h2 h1 h3 h4
  · obtain ⟨_, -, h⟩ := bind_eq_ok.mp h
    obtain ⟨_, -, h⟩ := bind_eq_ok.mp h
    obtain ⟨_, -, h⟩ := bind_eq_ok.mp h
    simp only [ok.injEq, Prod.mk.injEq] at h
    obtain ⟨rfl, -⟩ := h
    simp [TransactionPayload.values]
  · obtain ⟨⟨payload, r₂⟩, hpayload, h⟩ := bind_eq_ok.mp h
    simp only [ok.injEq, Prod.mk.injEq] at h
    obtain ⟨rfl, -⟩ := h
    exact contractCall_consensusDeserialize_nesting _ _ _ hpayload
  · obtain ⟨_, -, h⟩ := bind_eq_ok.mp h
    simp only [ok.injEq, Prod.mk.injEq] at h
    obtain ⟨rfl, -⟩ := h
    simp [TransactionPayload.values]
  · obtain ⟨_, -, h⟩ := bind_eq_ok.mp h
    obtain ⟨_, -, h⟩ := bind_eq_ok.mp h
    split_ifs at h
    simp only [ok.injEq, Prod.mk.injEq] at h
    obtain ⟨rfl, -⟩ := h
    simp [TransactionPayload.values]
  · obtain ⟨_, -, h⟩ := bind_eq_ok.mp h
    simp only [ok.injEq, Prod.mk.injEq] at h
    obtain ⟨rfl, -⟩ := h
    simp [TransactionPayload.values]

theorem fromParts_ok {versionU8 : UInt8} {chainId : UInt32} {auth : TransactionAuth}
    {anchorModeU8 postConditionModeU8 : UInt8} {postConditions : List TransactionPostCondition}
    {payload : TransactionPayload} {tx : StacksTransaction}
    (h : StacksTransaction.fromParts versionU8 chainId auth anchorModeU8 postConditionModeU8
      postConditions payload = ok tx) :
    tx.postConditions = postConditions ∧ tx.payload = payload := by
  unfold StacksTransaction.fromParts at h
  obtain ⟨anchorMode, -, h⟩ := bind_eq_ok.mp h
  obtain ⟨_, -, h⟩ := bind_eq_ok.mp h
  obtain ⟨postConditionMode, -, h⟩ := bind_eq_ok.mp h
  cases h
  exact ⟨rfl, rfl⟩

/-- Every Clarity value of a transaction that the decoder returns is at most
16 levels deep. -/
theorem decoded_values_nesting {r : Bytes} {tx : StacksTransaction} {len : Nat}
    (h : StacksTransaction.consensusDeserializeWithLen secp sizes isClarityVariable r = ok (tx, len)) :
    ∀ v ∈ tx.values, v.nesting ≤ 16 := by
  unfold StacksTransaction.consensusDeserializeWithLen at h
  obtain ⟨⟨tx', rest⟩, hfields, h⟩ := bind_eq_ok.mp h
  simp only [ok.injEq, Prod.mk.injEq] at h
  obtain ⟨rfl, -⟩ := h
  unfold StacksTransaction.readFields at hfields
  obtain ⟨_, -, hfields⟩ := bind_eq_ok.mp hfields
  obtain ⟨_, -, hfields⟩ := bind_eq_ok.mp hfields
  obtain ⟨_, -, hfields⟩ := bind_eq_ok.mp hfields
  obtain ⟨_, -, hfields⟩ := bind_eq_ok.mp hfields
  obtain ⟨_, -, hfields⟩ := bind_eq_ok.mp hfields
  obtain ⟨⟨postConditions, r₆⟩, hpcs, hfields⟩ := bind_eq_ok.mp hfields
  obtain ⟨⟨payload, r₇⟩, hpayload, hfields⟩ := bind_eq_ok.mp hfields
  obtain ⟨tx'', htx, hfields⟩ := bind_eq_ok.mp hfields
  simp only [ok.injEq, Prod.mk.injEq] at hfields
  obtain ⟨rfl, -⟩ := hfields
  obtain ⟨hpc, hp⟩ := fromParts_ok htx
  have hpcValues := readNextVec_forall postCondition_consensusDeserialize_nesting _ _ _ hpcs
  have hargs := payload_consensusDeserialize_nesting _ _ _ hpayload
  intro v hv
  simp only [StacksTransaction.values, List.mem_append, List.mem_flatMap] at hv
  rcases hv with ⟨pc, hmem, hv⟩ | hv
  · rw [hpc] at hmem
    exact hpcValues pc hmem v hv
  · rw [hp] at hv
    exact hargs v hv

/-- A transaction that carries a value more than 16 levels deep is returned
by the decoder for no input at all. -/
theorem consensusDeserializeWithLen_ne_of_nesting {tx : StacksTransaction} {v : Value}
    (hv : v ∈ tx.values) (hdeep : 16 < v.nesting) (r : Bytes) (len : Nat) :
    StacksTransaction.consensusDeserializeWithLen secp sizes isClarityVariable r ≠ ok (tx, len) := by
  intro h
  have := decoded_values_nesting h v hv
  omega

end Nesting

/-- A contract call whose one argument is `some` applied sixteen times to
`1`: a value the checked constructors build, 17 levels deep against a
`MAX_TYPE_DEPTH` of 32. The transaction is signed by a single-signature
P2PKH condition, has no post-conditions, encodes to far fewer than
`MAX_TRANSACTION_LEN` bytes, and its encoding, followed by anything, does not
decode to it, whatever the curve, the sizes in memory and the lexer. -/
theorem deep_argument_breaks_round_trip (secp : Secp256k1) (sizes : MemSizes)
    (isClarityVariable : ClarityName → Bool) :
    let arg : Value := (fun w => Value.optional (.some w))^[16] (.int 1)
    let address : StacksAddress := ⟨22, ⟨List.replicate 20 0, by simp⟩⟩
    let origin : SinglesigSpendingCondition :=
      ⟨.p2pkh, ⟨List.replicate 20 1, by simp⟩, 0, 0, .compressed, ⟨List.replicate 65 0, by simp⟩⟩
    let cc : TransactionContractCall :=
      ⟨address, ⟨[104, 101, 108, 108, 111], by decide⟩, ⟨[102], by decide⟩, [arg]⟩
    let tx : StacksTransaction :=
      ⟨.testnet, 0x80000000, .standard (.singlesig origin), .any, .allow, [], .contractCall cc⟩
    (fun o => Outcome.bind o Value.some)^[16] (ok (.int 1)) = ok arg ∧ arg.depth = some 17 ∧
      ∃ b, tx.consensusSerialize = ok b ∧ b.length ≤ MAX_TRANSACTION_LEN ∧
        ∀ rest, StacksTransaction.consensusDeserializeWithLen secp sizes isClarityVariable
          (b ++ rest) ≠ ok (tx, b.length) := by
  intro arg address origin cc tx
  have hdeep : 16 < arg.nesting := by decide
  have hmem : arg ∈ tx.values := by simp [tx, StacksTransaction.values, TransactionPayload.values, cc]
  refine ⟨by decide, by decide, _, rfl, Nat.le_of_ble_eq_true rfl, ?_⟩
  intro rest
  exact consensusDeserializeWithLen_ne_of_nesting hmem hdeep _ _

end BlockstackCore
