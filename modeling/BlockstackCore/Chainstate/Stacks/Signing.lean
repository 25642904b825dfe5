import BlockstackCore.Chainstate.Stacks.Transaction

/-!
# Signing and verifying transactions

Signatures are over a rolling hash (`chainstate/stacks/auth.rs`). The first
sighash is the txid of the transaction with its origin condition cleared and
its sponsor replaced by a sentinel (`sign_begin`, `verify_begin`). Each
signature then signs `presign(cur, flag, fee, nonce)`, and the next sighash
is `postsign(presign, key encoding, signature)`. The signer
(`StacksTransactionSigner`) computes this chain forwards from private keys.
The verifier (`verify`) computes it from the signatures, recovering each
public key, and at the end checks that the keys hash to the condition's
signer.

The hashes, the curve and the address hash are kept abstract in
`StacksCrypto`, over a type of private keys. What completeness needs of them
is stated separately, in `StacksCrypto.Sound`: a signature recovers the
signer's point, and no signature is the empty one.
-/

namespace BlockstackCore

open ByteCodec Outcome

abbrev Txid := FixedBytes 32

/-- `MessageSignature::empty`, which "cannot be a valid signature". -/
def MessageSignature.empty : MessageSignature := ⟨List.replicate 65 0, by simp⟩

inductive AddressHashMode where
  | serializeP2PKH
  | serializeP2SH
  | serializeP2WPKH
  | serializeP2WSH
  deriving DecidableEq, Repr

def SinglesigHashMode.toAddressHashMode : SinglesigHashMode → AddressHashMode
  | .p2pkh => .serializeP2PKH
  | .p2wpkh => .serializeP2WPKH

def MultisigHashMode.toAddressHashMode : MultisigHashMode → AddressHashMode
  | .p2sh => .serializeP2SH
  | .p2wsh => .serializeP2WSH

/-- The hash functions and the signature scheme, over private keys `K`. -/
structure StacksCrypto (K : Type) where
  /-- `Txid::from_stacks_tx`. -/
  txidFromStacksTx : Bytes → Txid
  /-- `Txid::from_sighash_bytes`. -/
  txidFromSighashBytes : Bytes → Txid
  /-- The point of `StacksPublicKey::from_private`. -/
  publicPoint : K → FixedBytes 33
  /-- `StacksPrivateKey::compress_public`. -/
  compressPublic : K → Bool
  /-- `StacksPrivateKey::sign`. -/
  sign : K → Bytes → MessageSignature
  /-- `StacksPublicKey::recover_to_pubkey`, before `set_compressed`. -/
  recoverToPubkey : Bytes → MessageSignature → Option (FixedBytes 33)
  /-- `public_keys_to_address_hash`. -/
  publicKeysToAddressHash : AddressHashMode → Nat → List StacksPublicKey → Hash160

/-- What signing needs of the scheme: a signature recovers the point of the
key that made it, and is never the empty signature. -/
structure StacksCrypto.Sound {K : Type} (crypto : StacksCrypto K) : Prop where
  recover_sign : ∀ k m, crypto.recoverToPubkey m (crypto.sign k m) = some (crypto.publicPoint k)
  sign_ne_empty : ∀ k m, crypto.sign k m ≠ MessageSignature.empty

/-- A scheme with one key, whose signature is nonzero. -/
def unitCrypto : StacksCrypto Unit :=
  ⟨fun _ => .replicate 32 0, fun _ => .replicate 32 0, fun _ => .replicate 33 0, fun _ => true,
    fun _ _ => .replicate 65 1, fun _ _ => some (.replicate 33 0), fun _ _ _ => .replicate 20 0⟩

/-- The laws can be met. -/
theorem unitCrypto_sound : unitCrypto.Sound :=
  ⟨fun _ _ => rfl, fun _ _ => show FixedBytes.replicate 65 1 ≠ MessageSignature.empty by decide⟩

/-- `chainstate::stacks::Error`, with the variants the signer raises. -/
inductive ChainstateError where
  | incompatibleSpendingConditionError
  | netError (e : NetError)
  deriving DecidableEq, Repr

def TransactionPublicKeyEncoding.ofCompressed (compressed : Bool) : TransactionPublicKeyEncoding :=
  if compressed then .compressed else .uncompressed

section Crypto

variable {K : Type} (crypto : StacksCrypto K)

/-- `StacksPublicKey::from_private`. -/
def StacksCrypto.publicKey (privk : K) : StacksPublicKey :=
  ⟨crypto.publicPoint privk, crypto.compressPublic privk⟩

/-- `StacksAddress::from_public_keys`: an address only for the combinations
of hash mode, threshold and keys that are supported. -/
def StacksAddress.fromPublicKeys (version : UInt8) (hashMode : AddressHashMode) (numSigs : Nat)
    (pubkeys : List StacksPublicKey) : Option StacksAddress :=
  -- must be sufficient public keys
  if pubkeys.length < numSigs then none
  -- a single-key mode takes one key and one signature
  else if (hashMode = .serializeP2PKH ∨ hashMode = .serializeP2WPKH) ∧
      (numSigs ≠ 1 ∨ pubkeys.length ≠ 1) then none
  -- if segwit, then keys must all be compressed
  else if (hashMode = .serializeP2WPKH ∨ hashMode = .serializeP2WSH) ∧
      pubkeys.any (fun pubkey => !pubkey.compressed) then none
  else some ⟨version, crypto.publicKeysToAddressHash hashMode numSigs pubkeys⟩

namespace TransactionSpendingCondition

def newSinglesigP2pkh (pubkey : StacksPublicKey) : Option TransactionSpendingCondition := do
  let keyEncoding := TransactionPublicKeyEncoding.ofCompressed pubkey.compressed
  let signerAddr ← StacksAddress.fromPublicKeys crypto 0 .serializeP2PKH 1 [pubkey]
  some (.singlesig ⟨.p2pkh, signerAddr.bytes, 0, 0, keyEncoding, MessageSignature.empty⟩)

def newSinglesigP2wpkh (pubkey : StacksPublicKey) : Option TransactionSpendingCondition := do
  let signerAddr ← StacksAddress.fromPublicKeys crypto 0 .serializeP2WPKH 1 [pubkey]
  some (.singlesig ⟨.p2wpkh, signerAddr.bytes, 0, 0, .compressed, MessageSignature.empty⟩)

def newMultisigP2sh (numSigs : UInt16) (pubkeys : List StacksPublicKey) :
    Option TransactionSpendingCondition := do
  let signerAddr ← StacksAddress.fromPublicKeys crypto 0 .serializeP2SH numSigs.toNat pubkeys
  some (.multisig ⟨.p2sh, signerAddr.bytes, 0, 0, [], numSigs⟩)

def newMultisigP2wsh (numSigs : UInt16) (pubkeys : List StacksPublicKey) :
    Option TransactionSpendingCondition := do
  let signerAddr ← StacksAddress.fromPublicKeys crypto 0 .serializeP2WSH numSigs.toNat pubkeys
  some (.multisig ⟨.p2wsh, signerAddr.bytes, 0, 0, [], numSigs⟩)

end TransactionSpendingCondition

end Crypto

def TransactionAuthField.isSignature : TransactionAuthField → Bool
  | .signature _ _ => true
  | .publicKey _ => false

namespace TransactionSpendingCondition

/-- The sentinel sponsor of the initial sighash. -/
def newInitialSighash : TransactionSpendingCondition :=
  .singlesig ⟨.p2pkh, ⟨List.replicate 20 0, by simp⟩, 0, 0, .compressed, MessageSignature.empty⟩

/-- `num_signatures`; the multi-signature count is a `u16` that the source
`expect`s not to overflow, which the model does not bound. -/
def numSignatures : TransactionSpendingCondition → Nat
  | .singlesig data => if data.signature ≠ MessageSignature.empty then 1 else 0
  | .multisig data => (data.fields.filter TransactionAuthField.isSignature).length

def signaturesRequired : TransactionSpendingCondition → Nat
  | .singlesig _ => 1
  | .multisig data => data.signaturesRequired.toNat

def nonce : TransactionSpendingCondition → UInt64
  | .singlesig data => data.nonce
  | .multisig data => data.nonce

def feeRate : TransactionSpendingCondition → UInt64
  | .singlesig data => data.feeRate
  | .multisig data => data.feeRate

def setNonce (n : UInt64) : TransactionSpendingCondition → TransactionSpendingCondition
  | .singlesig data => .singlesig { data with nonce := n }
  | .multisig data => .multisig { data with nonce := n }

def setFeeRate (feeRate : UInt64) : TransactionSpendingCondition → TransactionSpendingCondition
  | .singlesig data => .singlesig { data with feeRate }
  | .multisig data => .multisig { data with feeRate }

/-- `clear`: the fee rate, the nonce and every signature or key. -/
def clear : TransactionSpendingCondition → TransactionSpendingCondition
  | .singlesig data => .singlesig { data with feeRate := 0, nonce := 0, signature := MessageSignature.empty }
  | .multisig data => .multisig { data with feeRate := 0, nonce := 0, fields := [] }

section Chain

variable {K : Type} (crypto : StacksCrypto K)

/-- `make_sighash_presign`: the previous sighash, the auth flag, the fee rate
and the nonce. -/
def makeSighashPresign (curSighash : Txid) (condCode : TransactionAuthFlags) (feeRate nonce : UInt64) :
    Txid :=
  crypto.txidFromSighashBytes (curSighash.bytes ++ [condCode.toU8] ++ writeU64 feeRate ++ writeU64 nonce)

/-- `make_sighash_postsign`: the presign hash, the key encoding and the signature. -/
def makeSighashPostsign (curSighash : Txid) (pubkey : StacksPublicKey) (sig : MessageSignature) :
    Txid :=
  let pubkeyEncoding := TransactionPublicKeyEncoding.ofCompressed pubkey.compressed
  crypto.txidFromSighashBytes (curSighash.bytes ++ [pubkeyEncoding.toU8] ++ sig.bytes)

/-- `next_signature`: sign the presign hash, and the sighash after it. -/
def nextSignature (curSighash : Txid) (condCode : TransactionAuthFlags) (feeRate nonce : UInt64)
    (privk : K) : MessageSignature × Txid :=
  let sighashPresign := makeSighashPresign crypto curSighash condCode feeRate nonce
  let sig := crypto.sign privk sighashPresign.bytes
  let pubk := crypto.publicKey privk
  (sig, makeSighashPostsign crypto sighashPresign pubk sig)

/-- `next_verification`: recover the key of a signature over the presign
hash, with the compression its encoding names, and the sighash after it. -/
def nextVerification (curSighash : Txid) (condCode : TransactionAuthFlags) (feeRate nonce : UInt64)
    (keyEncoding : TransactionPublicKeyEncoding) (sig : MessageSignature) :
    Outcome NetError (StacksPublicKey × Txid) := do
  let sighashPresign := makeSighashPresign crypto curSighash condCode feeRate nonce
  let point ← ofOption (.verifyingError "Failed to recover public key")
    (crypto.recoverToPubkey sighashPresign.bytes sig)
  let pubk : StacksPublicKey := ⟨point, keyEncoding == .compressed⟩
  ok (pubk, makeSighashPostsign crypto sighashPresign pubk sig)

end Chain

end TransactionSpendingCondition

section Verify

variable {K : Type} (crypto : StacksCrypto K)

open TransactionSpendingCondition

def SinglesigSpendingCondition.verify (c : SinglesigSpendingCondition) (initialSighash : Txid)
    (condCode : TransactionAuthFlags) : Outcome NetError Txid := do
  let (pubkey, nextSighash) ←
    nextVerification crypto initialSighash condCode c.feeRate c.nonce c.keyEncoding c.signature
  match StacksAddress.fromPublicKeys crypto 0 c.hashMode.toAddressHashMode 1 [pubkey] with
  | none => err (.verifyingError "Failed to generate address from public key")
  | some addr =>
    if addr.bytes ≠ c.signer then
      err (.verifyingError "Signer hash does not equal hash of public key(s)")
    else ok nextSighash

/-- The loop of `MultisigSpendingCondition::verify` over the fields: the
keys, recovered from each signature or given, the sighash after the last
signature, the number of signatures, and whether any is uncompressed. -/
def verifyFields (condCode : TransactionAuthFlags) (feeRate nonce : UInt64) :
    List TransactionAuthField → Txid → Nat → Bool →
      Outcome NetError (List StacksPublicKey × Txid × Nat × Bool)
  | [], curSighash, numSigs, haveUncompressed => ok ([], curSighash, numSigs, haveUncompressed)
  | .publicKey pubkey :: fields, curSighash, numSigs, haveUncompressed => do
    let (pubkeys, rest) ← verifyFields condCode feeRate nonce fields curSighash numSigs
      (haveUncompressed || !pubkey.compressed)
    ok (pubkey :: pubkeys, rest)
  | .signature pubkeyEncoding sigbuf :: fields, curSighash, numSigs, haveUncompressed => do
    let haveUncompressed := haveUncompressed || pubkeyEncoding == .uncompressed
    let (pubkey, nextSighash) ←
      nextVerification crypto curSighash condCode feeRate nonce pubkeyEncoding sigbuf
    let numSigs ← ofOption (.verifyingError "Too many signatures") (checkedAdd 16 numSigs 1)
    let (pubkeys, rest) ← verifyFields condCode feeRate nonce fields nextSighash numSigs
      haveUncompressed
    ok (pubkey :: pubkeys, rest)

def MultisigSpendingCondition.verify (c : MultisigSpendingCondition) (initialSighash : Txid)
    (condCode : TransactionAuthFlags) : Outcome NetError Txid := do
  let (pubkeys, curSighash, numSigs, haveUncompressed) ←
    verifyFields crypto condCode c.feeRate c.nonce c.fields initialSighash 0 false
  if numSigs ≠ c.signaturesRequired.toNat then
    err (.verifyingError "Incorrect number of signatures")
  else if haveUncompressed ∧ c.hashMode = .p2wsh then
    err (.verifyingError "Uncompressed keys are not allowed in this hash mode")
  else
    match StacksAddress.fromPublicKeys crypto 0 c.hashMode.toAddressHashMode
        c.signaturesRequired.toNat pubkeys with
    | none => err (.verifyingError "Failed to generate address from public keys")
    | some addr =>
      if addr.bytes ≠ c.signer then
        err (.verifyingError "Signer hash does not equal hash of public key(s)")
      else ok curSighash

def TransactionSpendingCondition.verify (initialSighash : Txid) (condCode : TransactionAuthFlags) :
    TransactionSpendingCondition → Outcome NetError Txid
  | .singlesig data => data.verify crypto initialSighash condCode
  | .multisig data => data.verify crypto initialSighash condCode

end Verify

namespace TransactionAuth

def origin : TransactionAuth → TransactionSpendingCondition
  | .standard s => s
  | .sponsored s _ => s

def isSponsored : TransactionAuth → Bool
  | .standard _ => false
  | .sponsored _ _ => true

/-- `into_sponsored`: two standard authorizations, the second paying. -/
def intoSponsored : TransactionAuth → TransactionAuth → Option TransactionAuth
  | .standard sc, .standard sp => some (.sponsored sc sp)
  | _, _ => none

def setSponsor (sponsorSpendingCond : TransactionSpendingCondition) :
    TransactionAuth → Except ChainstateError TransactionAuth
  | .sponsored origin _ => .ok (.sponsored origin sponsorSpendingCond)
  | .standard _ => .error .incompatibleSpendingConditionError

/-- `into_initial_sighash_auth`: the origin cleared, and the sponsor, if any,
replaced by the sentinel. -/
def intoInitialSighashAuth : TransactionAuth → TransactionAuth
  | .standard origin => .standard origin.clear
  | .sponsored origin _ => .sponsored origin.clear TransactionSpendingCondition.newInitialSighash

section Crypto

variable {K : Type} (crypto : StacksCrypto K)

def fromP2pkh (privk : K) : Option TransactionAuth :=
  (TransactionSpendingCondition.newSinglesigP2pkh crypto (crypto.publicKey privk)).map .standard

def fromP2wpkh (privk : K) : Option TransactionAuth :=
  (TransactionSpendingCondition.newSinglesigP2wpkh crypto (crypto.publicKey privk)).map .standard

def fromP2sh (privks : List K) (numSigs : UInt16) : Option TransactionAuth :=
  (TransactionSpendingCondition.newMultisigP2sh crypto numSigs (privks.map crypto.publicKey)).map
    .standard

def fromP2wsh (privks : List K) (numSigs : UInt16) : Option TransactionAuth :=
  (TransactionSpendingCondition.newMultisigP2wsh crypto numSigs (privks.map crypto.publicKey)).map
    .standard

def verifyOrigin (auth : TransactionAuth) (initialSighash : Txid) : Outcome NetError Txid :=
  auth.origin.verify crypto initialSighash .authStandard

def verify (auth : TransactionAuth) (initialSighash : Txid) : Outcome NetError Unit := do
  let originSighash ← auth.verifyOrigin crypto initialSighash
  match auth with
  | .standard _ => ok ()
  | .sponsored _ sponsorCondition => do
    let _ ← sponsorCondition.verify crypto originSighash .authSponsored
    ok ()

end Crypto

end TransactionAuth

namespace StacksTransaction

variable {K : Type} (crypto : StacksCrypto K)

/-- `txid`, whose serialization the source `expect`s to succeed: `none` is
that panic. -/
def txid (tx : StacksTransaction) : Option Txid :=
  match tx.consensusSerialize with
  | ok bytes => some (crypto.txidFromStacksTx bytes)
  | _ => none

def signBegin (tx : StacksTransaction) : Option Txid :=
  ({ tx with auth := tx.auth.intoInitialSighashAuth } : StacksTransaction).txid crypto

def verifyBegin (tx : StacksTransaction) : Option Txid :=
  ({ tx with auth := tx.auth.intoInitialSighashAuth } : StacksTransaction).txid crypto

/-- `sign_and_append`: sign the sighash with the condition's fee rate and
nonce, and store the signature in the condition. -/
def signAndAppend (condition : TransactionSpendingCondition) (curSighash : Txid)
    (authFlag : TransactionAuthFlags) (privk : K) : TransactionSpendingCondition × Txid :=
  let (nextSig, nextSighash) := TransactionSpendingCondition.nextSignature crypto curSighash authFlag
    condition.feeRate condition.nonce privk
  match condition with
  | .multisig cond =>
    let keyEncoding := TransactionPublicKeyEncoding.ofCompressed (crypto.compressPublic privk)
    (.multisig { cond with fields := cond.fields ++ [.signature keyEncoding nextSig] }, nextSighash)
  | .singlesig cond => (.singlesig { cond with signature := nextSig }, nextSighash)

/-- `append_pubkey`: a multi-signature condition takes the key as a field. -/
def appendPubkey (condition : TransactionSpendingCondition) (pubkey : StacksPublicKey) :
    Outcome NetError TransactionSpendingCondition :=
  match condition with
  | .multisig cond => ok (.multisig { cond with fields := cond.fields ++ [.publicKey pubkey] })
  | .singlesig _ => err (.signingError "Not a multisig condition")

def signNextOrigin (tx : StacksTransaction) (curSighash : Txid) (privk : K) :
    StacksTransaction × Txid :=
  match tx.auth with
  | .standard originCondition =>
    let (condition, nextSighash) := signAndAppend crypto originCondition curSighash .authStandard privk
    ({ tx with auth := .standard condition }, nextSighash)
  | .sponsored originCondition sponsorCondition =>
    let (condition, nextSighash) := signAndAppend crypto originCondition curSighash .authStandard privk
    ({ tx with auth := .sponsored condition sponsorCondition }, nextSighash)

def appendNextOrigin (tx : StacksTransaction) (pubk : StacksPublicKey) :
    Outcome NetError StacksTransaction :=
  match tx.auth with
  | .standard originCondition => do
    ok { tx with auth := .standard (← appendPubkey originCondition pubk) }
  | .sponsored originCondition sponsorCondition => do
    ok { tx with auth := .sponsored (← appendPubkey originCondition pubk) sponsorCondition }

def signNextSponsor (tx : StacksTransaction) (curSighash : Txid) (privk : K) :
    Outcome NetError (StacksTransaction × Txid) :=
  match tx.auth with
  | .standard _ =>
    err (.signingError "Cannot sign standard authorization with a sponsoring private key")
  | .sponsored originCondition sponsorCondition =>
    let (condition, nextSighash) := signAndAppend crypto sponsorCondition curSighash .authSponsored privk
    ok ({ tx with auth := .sponsored originCondition condition }, nextSighash)

def appendNextSponsor (tx : StacksTransaction) (pubk : StacksPublicKey) :
    Outcome NetError StacksTransaction :=
  match tx.auth with
  | .standard _ =>
    err (.signingError "Cannot appned a public key to the sponsor of a standard auth condition")
  | .sponsored originCondition sponsorCondition => do
    ok { tx with auth := .sponsored originCondition (← appendPubkey sponsorCondition pubk) }

def verify (tx : StacksTransaction) : Outcome NetError Unit := do
  tx.auth.verify crypto (← expect (tx.verifyBegin crypto))

def verifyOrigin (tx : StacksTransaction) : Outcome NetError Txid := do
  tx.auth.verifyOrigin crypto (← expect (tx.verifyBegin crypto))

end StacksTransaction

structure StacksTransactionSigner where
  tx : StacksTransaction
  sighash : Txid
  originDone : Bool
  checkOversign : Bool
  checkOverlap : Bool

namespace StacksTransactionSigner

variable {K : Type} (crypto : StacksCrypto K)

def new (tx : StacksTransaction) : Option StacksTransactionSigner := do
  some ⟨tx, ← tx.signBegin crypto, false, true, true⟩

def newSponsor (tx : StacksTransaction) (spendingCondition : TransactionSpendingCondition) :
    Outcome ChainstateError StacksTransactionSigner :=
  if !tx.auth.isSponsored then err .incompatibleSpendingConditionError
  else do
    let auth ← ofExcept (tx.auth.setSponsor spendingCondition)
    let newTx : StacksTransaction := { tx with auth }
    let originSighash ← (newTx.verifyOrigin crypto).mapErr .netError
    ok ⟨newTx, originSighash, true, true, true⟩

def signOrigin (s : StacksTransactionSigner) (privk : K) : Outcome NetError StacksTransactionSigner :=
  if s.checkOverlap && s.originDone then
    -- can't sign another origin private key since we started signing sponsors
    err (.signingError "Cannot sign origin after sponsor key")
  else
    let originCondition := s.tx.auth.origin
    if s.checkOversign && originCondition.numSignatures ≥ originCondition.signaturesRequired then
      err (.signingError "Origin would have too many signatures")
    else
      let (tx, nextSighash) := s.tx.signNextOrigin crypto s.sighash privk
      ok { s with tx, sighash := nextSighash }

def appendOrigin (s : StacksTransactionSigner) (pubk : StacksPublicKey) :
    Outcome NetError StacksTransactionSigner :=
  if s.checkOverlap && s.originDone then
    err (.signingError "Cannot append public key to origin after sponsor key")
  else do
    ok { s with tx := ← s.tx.appendNextOrigin pubk }

def signSponsor (s : StacksTransactionSigner) (privk : K) : Outcome NetError StacksTransactionSigner := do
  let checked : Outcome NetError Unit :=
    match s.tx.auth with
    | .sponsored _ sponsorCondition =>
      if s.checkOversign && sponsorCondition.numSignatures ≥ sponsorCondition.signaturesRequired then
        err (.signingError "Sponsor would have too many signatures")
      else ok ()
    | .standard _ => ok ()
  checked
  let (tx, nextSighash) ← s.tx.signNextSponsor crypto s.sighash privk
  ok { s with tx, sighash := nextSighash, originDone := true }

def appendSponsor (s : StacksTransactionSigner) (pubk : StacksPublicKey) :
    Outcome NetError StacksTransactionSigner := do
  ok { s with tx := ← s.tx.appendNextSponsor pubk }

def complete (s : StacksTransactionSigner) : Bool :=
  match s.tx.auth with
  | .standard originCondition =>
    decide (originCondition.numSignatures ≥ originCondition.signaturesRequired)
  | .sponsored originCondition sponsoredCondition =>
    decide (originCondition.numSignatures ≥ originCondition.signaturesRequired) &&
      decide (sponsoredCondition.numSignatures ≥ sponsoredCondition.signaturesRequired) &&
      (s.originDone || !s.checkOverlap)

def getTx (s : StacksTransactionSigner) : Option StacksTransaction :=
  if s.complete then some s.tx else none

end StacksTransactionSigner

/-! ### Signing a transaction to the end

The calls a caller makes on a signer, and what they do to the one condition
they sign. -/

/-- A call on a signer: sign with a private key, or append its public key. -/
inductive SignStep (K : Type) where
  | sign (privk : K)
  | append (privk : K)

namespace SignStep

variable {K : Type}

def privk : SignStep K → K
  | .sign privk => privk
  | .append privk => privk

def isSign : SignStep K → Bool
  | .sign _ => true
  | .append _ => false

end SignStep

/-- Steps that take the keys `privks` in order and sign with `m` of them. -/
def SignsWith {K : Type} (steps : List (SignStep K)) (privks : List K) (m : Nat) : Prop :=
  steps.map SignStep.privk = privks ∧ (steps.filter SignStep.isSign).length = m

/-- The authorization with its origin condition replaced. -/
def TransactionAuth.withOrigin (c : TransactionSpendingCondition) : TransactionAuth → TransactionAuth
  | .standard _ => .standard c
  | .sponsored _ sponsor => .sponsored c sponsor

namespace StacksTransactionSigner

variable {K : Type} (crypto : StacksCrypto K)

/-- The calls `steps` on a signer, by `sign` and `append`, up to the first error. -/
def run (sign : StacksTransactionSigner → K → Outcome NetError StacksTransactionSigner)
    (append : StacksTransactionSigner → StacksPublicKey → Outcome NetError StacksTransactionSigner) :
    StacksTransactionSigner → List (SignStep K) → Outcome NetError StacksTransactionSigner
  | s, [] => ok s
  | s, .sign privk :: steps => do run sign append (← sign s privk) steps
  | s, .append privk :: steps => do run sign append (← append s (crypto.publicKey privk)) steps

/-- `sign_origin` and `append_origin` calls. -/
def signOrigins (s : StacksTransactionSigner) (steps : List (SignStep K)) :
    Outcome NetError StacksTransactionSigner :=
  run crypto (signOrigin crypto) appendOrigin s steps

/-- `sign_sponsor` and `append_sponsor` calls. -/
def signSponsors (s : StacksTransactionSigner) (steps : List (SignStep K)) :
    Outcome NetError StacksTransactionSigner :=
  run crypto (signSponsor crypto) appendSponsor s steps

end StacksTransactionSigner

section Condition

variable {K : Type} (crypto : StacksCrypto K)

/-- What the calls do to the condition they sign: a signature is refused with
`tooMany` once the condition has all it needs, and rolls the sighash
forward; a public key is appended. -/
def signCondition (flag : TransactionAuthFlags) (tooMany : String) :
    TransactionSpendingCondition → Txid → List (SignStep K) →
      Outcome NetError (TransactionSpendingCondition × Txid)
  | c, h, [] => ok (c, h)
  | c, h, .sign privk :: steps =>
    if c.numSignatures ≥ c.signaturesRequired then err (.signingError tooMany)
    else
      let next := StacksTransaction.signAndAppend crypto c h flag privk
      signCondition flag tooMany next.1 next.2 steps
  | c, h, .append privk :: steps => do
    signCondition flag tooMany (← StacksTransaction.appendPubkey c (crypto.publicKey privk)) h steps

/-- A spending condition as `from_p2pkh`, `from_p2wpkh`, `from_p2sh` or
`from_p2wsh` builds it from the keys `privks` with threshold `m`, with any
nonce and fee rate set after. -/
inductive Built : TransactionSpendingCondition → List K → Nat → Prop
  | p2pkh {privk : K} {c : TransactionSpendingCondition} :
    TransactionAuth.fromP2pkh crypto privk = some (.standard c) → Built c [privk] 1
  | p2wpkh {privk : K} {c : TransactionSpendingCondition} :
    TransactionAuth.fromP2wpkh crypto privk = some (.standard c) → Built c [privk] 1
  | p2sh {privks : List K} {numSigs : UInt16} {c : TransactionSpendingCondition} :
    TransactionAuth.fromP2sh crypto privks numSigs = some (.standard c) → Built c privks numSigs.toNat
  | p2wsh {privks : List K} {numSigs : UInt16} {c : TransactionSpendingCondition} :
    TransactionAuth.fromP2wsh crypto privks numSigs = some (.standard c) → Built c privks numSigs.toNat
  | setNonce {c : TransactionSpendingCondition} {privks : List K} {m : Nat} (nonce : UInt64) :
    Built c privks m → Built (c.setNonce nonce) privks m
  | setFeeRate {c : TransactionSpendingCondition} {privks : List K} {m : Nat} (feeRate : UInt64) :
    Built c privks m → Built (c.setFeeRate feeRate) privks m

/-- An unsigned single-signature condition whose signer is the hash of the
key of `privk`, with the encoding of that key. -/
structure SinglesigSpendingCondition.ReadyFor (d : SinglesigSpendingCondition) (privk : K) : Prop where
  keyEncoding_eq : d.keyEncoding = .ofCompressed (crypto.compressPublic privk)
  unsigned : d.signature = MessageSignature.empty
  signer_eq : ∃ addr, StacksAddress.fromPublicKeys crypto 0 d.hashMode.toAddressHashMode 1
    [crypto.publicKey privk] = some addr ∧ addr.bytes = d.signer

/-- A multi-signature condition with no fields yet, whose signer is the hash
of the keys of `privks` in order. -/
structure MultisigSpendingCondition.ReadyFor (d : MultisigSpendingCondition) (privks : List K) :
    Prop where
  unsigned : d.fields = []
  signer_eq : ∃ addr, StacksAddress.fromPublicKeys crypto 0 d.hashMode.toAddressHashMode
    d.signaturesRequired.toNat (privks.map crypto.publicKey) = some addr ∧ addr.bytes = d.signer

end Condition

/-! ### The signer's chain is the verifier's chain -/

section Complete

variable {K : Type} {crypto : StacksCrypto K}

open TransactionSpendingCondition

@[simp] theorem ofCompressed_beq_compressed (b : Bool) :
    (TransactionPublicKeyEncoding.ofCompressed b == .compressed) = b := by
  cases b <;> rfl

@[simp] theorem ofCompressed_beq_uncompressed (b : Bool) :
    (TransactionPublicKeyEncoding.ofCompressed b == .uncompressed) = !b := by
  cases b <;> rfl

/-- The verifier recovers the key that signed, with the compression the
signer's encoding names, and so reaches the signer's next sighash. -/
theorem nextVerification_nextSignature (hs : crypto.Sound) (h : Txid) (flag : TransactionAuthFlags)
    (feeRate nonce : UInt64) (privk : K) :
    nextVerification crypto h flag feeRate nonce (.ofCompressed (crypto.compressPublic privk))
        (nextSignature crypto h flag feeRate nonce privk).1 =
      ok (crypto.publicKey privk, (nextSignature crypto h flag feeRate nonce privk).2) := by
  simp only [nextVerification, nextSignature, hs.recover_sign, ofOption_some, ok_bind,
    ofCompressed_beq_compressed]
  rfl

section Fields

variable {flag : TransactionAuthFlags} {feeRate nonce : UInt64}

/-- The verifier's loop over two runs of fields is the loop over the first,
continued over the second. -/
theorem verifyFields_append {gs : List TransactionAuthField} {h' : Txid} {n' : Nat} {u' : Bool}
    {pks' : List StacksPublicKey} {h'' : Txid} {n'' : Nat} {u'' : Bool}
    (hgs : verifyFields crypto flag feeRate nonce gs h' n' u' = ok (pks', h'', n'', u'')) :
    ∀ {fs : List TransactionAuthField} {h : Txid} {n : Nat} {u : Bool} {pks : List StacksPublicKey},
      verifyFields crypto flag feeRate nonce fs h n u = ok (pks, h', n', u') →
      verifyFields crypto flag feeRate nonce (fs ++ gs) h n u = ok (pks ++ pks', h'', n'', u'')
  | [], h, n, u, pks, hfs => by
    simp only [verifyFields, ok.injEq, Prod.mk.injEq] at hfs
    obtain ⟨rfl, rfl, rfl, rfl⟩ := hfs
    exact hgs
  | .publicKey pubkey :: fs, h, n, u, pks, hfs => by
    obtain ⟨⟨pubkeys, rest⟩, hrest, hfs⟩ := bind_eq_ok.mp hfs
    simp only [ok.injEq, Prod.mk.injEq] at hfs
    obtain ⟨rfl, rfl⟩ := hfs
    simp only [List.cons_append, verifyFields, verifyFields_append hgs hrest, ok_bind]
  | .signature pubkeyEncoding sigbuf :: fs, h, n, u, pks, hfs => by
    obtain ⟨⟨pubkey, nextSighash⟩, hnext, hfs⟩ := bind_eq_ok.mp hfs
    obtain ⟨numSigs, hnum, hfs⟩ := bind_eq_ok.mp hfs
    obtain ⟨⟨pubkeys, rest⟩, hrest, hfs⟩ := bind_eq_ok.mp hfs
    simp only [ok.injEq, Prod.mk.injEq] at hfs
    obtain ⟨rfl, rfl⟩ := hfs
    simp only [List.cons_append, verifyFields, hnext, hnum, verifyFields_append hgs hrest, ok_bind]

theorem verifyFields_publicKey (pubkey : StacksPublicKey) (h : Txid) (n : Nat) (u : Bool) :
    verifyFields crypto flag feeRate nonce [.publicKey pubkey] h n u =
      ok ([pubkey], h, n, u || !pubkey.compressed) := rfl

/-- The field `sign_and_append` adds verifies to the key that signed, and
counts one signature. -/
theorem verifyFields_signature (hs : crypto.Sound) (privk : K) (h : Txid) {n : Nat} (u : Bool)
    (hn : n + 1 < 2 ^ 16) :
    verifyFields crypto flag feeRate nonce
        [.signature (.ofCompressed (crypto.compressPublic privk))
          (nextSignature crypto h flag feeRate nonce privk).1] h n u =
      ok ([crypto.publicKey privk], (nextSignature crypto h flag feeRate nonce privk).2, n + 1,
        u || !crypto.compressPublic privk) := by
  simp only [verifyFields, nextVerification_nextSignature hs, checkedAdd_of_lt hn,
    ofCompressed_beq_uncompressed, ofOption_some, ok_bind]

end Fields

@[simp] theorem StacksCrypto.publicKey_compressed (privk : K) :
    (crypto.publicKey privk).compressed = crypto.compressPublic privk := rfl

/-- A segwit address is only made from compressed keys. -/
theorem fromPublicKeys_compressed {version : UInt8} {hashMode : AddressHashMode} {numSigs : Nat}
    {pubkeys : List StacksPublicKey} {addr : StacksAddress}
    (h : StacksAddress.fromPublicKeys crypto version hashMode numSigs pubkeys = some addr)
    (hsegwit : hashMode = .serializeP2WPKH ∨ hashMode = .serializeP2WSH) :
    pubkeys.any (fun pubkey => !pubkey.compressed) = false := by
  unfold StacksAddress.fromPublicKeys at h
  split_ifs at h with _ _ hchecked
  exact Bool.eq_false_iff.mpr fun hany => hchecked ⟨hsegwit, hany⟩

theorem SinglesigSpendingCondition.verify_signed (hs : crypto.Sound) {d : SinglesigSpendingCondition}
    {privk : K} (hr : d.ReadyFor crypto privk) (h : Txid) (flag : TransactionAuthFlags) :
    ({ d with signature := (nextSignature crypto h flag d.feeRate d.nonce privk).1 } :
        SinglesigSpendingCondition).verify crypto h flag =
      ok (nextSignature crypto h flag d.feeRate d.nonce privk).2 := by
  obtain ⟨addr, haddr, hsigner⟩ := hr.signer_eq
  simp only [SinglesigSpendingCondition.verify, hr.keyEncoding_eq, nextVerification_nextSignature hs,
    ok_bind, haddr, hsigner, ne_eq, not_true_eq_false, if_false]

/-- A multi-signature condition verifies when the loop over its fields counts
the threshold, finds no uncompressed key where segwit forbids one, and
recovers keys that hash to the signer. -/
theorem MultisigSpendingCondition.verify_of_verifyFields {d : MultisigSpendingCondition} {h₀ h : Txid}
    {flag : TransactionAuthFlags} {pks : List StacksPublicKey} {u : Bool} {addr : StacksAddress}
    (hv : verifyFields crypto flag d.feeRate d.nonce d.fields h₀ 0 false =
      ok (pks, h, d.signaturesRequired.toNat, u))
    (haddr : StacksAddress.fromPublicKeys crypto 0 d.hashMode.toAddressHashMode
      d.signaturesRequired.toNat pks = some addr)
    (hsigner : addr.bytes = d.signer) (hu : d.hashMode = .p2wsh → u = false) :
    d.verify crypto h₀ flag = ok h := by
  have hsegwit : ¬ (u = true ∧ d.hashMode = .p2wsh) := by
    rintro ⟨hu', hmode⟩
    simp [hu hmode] at hu'
  simp only [MultisigSpendingCondition.verify, hv, ok_bind, ne_eq, not_true_eq_false, if_false,
    hsegwit, haddr, hsigner]

/-- What the builders make, as the verifier will need it: a single-signature
condition for one key, or an empty multi-signature condition for the keys. -/
theorem Built.ready {c : TransactionSpendingCondition} {privks : List K} {m : Nat}
    (hb : Built crypto c privks m) :
    (∃ d privk, c = .singlesig d ∧ privks = [privk] ∧ m = 1 ∧ d.ReadyFor crypto privk) ∨
      (∃ d, c = .multisig d ∧ m = d.signaturesRequired.toNat ∧ d.ReadyFor crypto privks) := by
  induction hb with
  | p2pkh hc =>
    obtain ⟨c', hc', hcc⟩ := Option.map_eq_some_iff.mp hc
    cases hcc
    rw [newSinglesigP2pkh] at hc'
    obtain ⟨addr, haddr, hc'⟩ := Option.bind_eq_some_iff.mp hc'
    cases hc'
    exact .inl ⟨_, _, rfl, rfl, rfl, ⟨rfl, rfl, addr, haddr, rfl⟩⟩
  | p2wpkh hc =>
    rename_i privk _
    obtain ⟨c', hc', hcc⟩ := Option.map_eq_some_iff.mp hc
    cases hcc
    rw [newSinglesigP2wpkh] at hc'
    obtain ⟨addr, haddr, hc'⟩ := Option.bind_eq_some_iff.mp hc'
    cases hc'
    -- segwit takes only a compressed key, whose encoding the condition names
    have hcompressed : crypto.compressPublic privk = true := by
      simpa using fromPublicKeys_compressed haddr (.inl rfl)
    refine .inl ⟨_, _, rfl, rfl, rfl, ⟨?_, rfl, addr, haddr, rfl⟩⟩
    rw [hcompressed]
    rfl
  | p2sh hc =>
    obtain ⟨c', hc', hcc⟩ := Option.map_eq_some_iff.mp hc
    cases hcc
    rw [newMultisigP2sh] at hc'
    obtain ⟨addr, haddr, hc'⟩ := Option.bind_eq_some_iff.mp hc'
    cases hc'
    exact .inr ⟨_, rfl, rfl, ⟨rfl, addr, haddr, rfl⟩⟩
  | p2wsh hc =>
    obtain ⟨c', hc', hcc⟩ := Option.map_eq_some_iff.mp hc
    cases hcc
    rw [newMultisigP2wsh] at hc'
    obtain ⟨addr, haddr, hc'⟩ := Option.bind_eq_some_iff.mp hc'
    cases hc'
    exact .inr ⟨_, rfl, rfl, ⟨rfl, addr, haddr, rfl⟩⟩
  | setNonce nonce _ ih =>
    rcases ih with ⟨d, privk, rfl, rfl, rfl, hr⟩ | ⟨d, rfl, rfl, hr⟩
    · exact .inl ⟨_, privk, rfl, rfl, rfl, ⟨hr.keyEncoding_eq, hr.unsigned, hr.signer_eq⟩⟩
    · exact .inr ⟨_, rfl, rfl, ⟨hr.unsigned, hr.signer_eq⟩⟩
  | setFeeRate feeRate _ ih =>
    rcases ih with ⟨d, privk, rfl, rfl, rfl, hr⟩ | ⟨d, rfl, rfl, hr⟩
    · exact .inl ⟨_, privk, rfl, rfl, rfl, ⟨hr.keyEncoding_eq, hr.unsigned, hr.signer_eq⟩⟩
    · exact .inr ⟨_, rfl, rfl, ⟨hr.unsigned, hr.signer_eq⟩⟩

/-- One key signing once is one call, a signature. -/
theorem SignsWith.single {steps : List (SignStep K)} {privk : K} (h : SignsWith steps [privk] 1) :
    steps = [.sign privk] := by
  obtain ⟨hkeys, hsigns⟩ := h
  rcases steps with _ | ⟨st, _ | ⟨st', rest⟩⟩
  · simp at hkeys
  · cases st with
    | sign k =>
      simp only [List.map_cons, List.map_nil, List.cons.injEq, and_true, SignStep.privk] at hkeys
      rw [hkeys]
    | append k => simp [SignStep.isSign] at hsigns
  · simp at hkeys

/-- Signing a multi-signature condition keeps its fields checkable: at each
point of the calls, the verifier's loop over the fields so far gives the keys
so far, the signer's sighash, and one count per signature. The induction is
on the calls left. -/
theorem signCondition_multisig (hs : crypto.Sound) (d : MultisigSpendingCondition) (h₀ : Txid)
    (flag : TransactionAuthFlags) (tooMany : String) :
    ∀ (steps : List (SignStep K)) (fs : List TransactionAuthField) (h : Txid)
      (pks : List StacksPublicKey) (n : Nat) (u : Bool),
      verifyFields crypto flag d.feeRate d.nonce fs h₀ 0 false = ok (pks, h, n, u) →
      (fs.filter TransactionAuthField.isSignature).length = n →
      n + (steps.filter SignStep.isSign).length = d.signaturesRequired.toNat →
      ∃ fs' h', signCondition crypto flag tooMany (.multisig { d with fields := fs }) h steps =
          ok (.multisig { d with fields := fs' }, h') ∧
        verifyFields crypto flag d.feeRate d.nonce fs' h₀ 0 false =
          ok (pks ++ steps.map (crypto.publicKey ∘ SignStep.privk), h', d.signaturesRequired.toNat,
            u || steps.any (fun st => !crypto.compressPublic st.privk)) ∧
        (fs'.filter TransactionAuthField.isSignature).length = d.signaturesRequired.toNat
  | [], fs, h, pks, n, u, hv, hcount, hn => by
    simp only [List.filter_nil, List.length_nil, Nat.add_zero] at hn
    subst hn
    refine ⟨fs, h, rfl, ?_, hcount⟩
    simpa using hv
  | .sign privk :: steps, fs, h, pks, n, u, hv, hcount, hn => by
    have hn' : n + 1 + (steps.filter SignStep.isSign).length = d.signaturesRequired.toNat := by
      simp only [List.filter_cons, SignStep.isSign, if_true, List.length_cons] at hn
      omega
    have hbound : n + 1 < 2 ^ 16 := by
      have := d.signaturesRequired.toNat_lt
      omega
    have hv' := verifyFields_append (verifyFields_signature hs privk h u hbound) hv
    obtain ⟨fs', h', hrun, hv'', hcount'⟩ := signCondition_multisig hs d h₀ flag tooMany steps _ _ _ _ _
      hv' (by simp [hcount, List.filter_cons, TransactionAuthField.isSignature]) hn'
    -- the oversign check passes: fewer signatures than the threshold so far
    have hroom : ¬ numSignatures (.multisig { d with fields := fs }) ≥
        signaturesRequired (.multisig { d with fields := fs }) := by
      simp only [numSignatures, signaturesRequired, hcount]
      omega
    refine ⟨fs', h', ?_, ?_, hcount'⟩
    · rw [signCondition, if_neg hroom]
      exact hrun
    · simpa [List.append_assoc, Bool.or_assoc, SignStep.privk] using hv''
  | .append privk :: steps, fs, h, pks, n, u, hv, hcount, hn => by
    have hv' := verifyFields_append (verifyFields_publicKey (crypto.publicKey privk) h n u) hv
    obtain ⟨fs', h', hrun, hv'', hcount'⟩ := signCondition_multisig hs d h₀ flag tooMany steps _ _ _ _ _
      hv' (by simp [hcount, TransactionAuthField.isSignature])
      (by simpa [SignStep.isSign] using hn)
    refine ⟨fs', h', hrun, ?_, hcount'⟩
    simpa [List.append_assoc, Bool.or_assoc, SignStep.privk] using hv''

/-- Calls that take the keys of a built condition in order and sign with as
many as it requires leave it signed: it verifies from the sighash the calls
started at to the one they end at, it clears to the unsigned condition, and
it has its signatures. -/
theorem signCondition_complete (hs : crypto.Sound) {c : TransactionSpendingCondition}
    {privks : List K} {m : Nat} {steps : List (SignStep K)} (hb : Built crypto c privks m)
    (hsteps : SignsWith steps privks m) (flag : TransactionAuthFlags) (tooMany : String) (h₀ : Txid) :
    ∃ c' h', signCondition crypto flag tooMany c h₀ steps = ok (c', h') ∧
      c'.verify crypto h₀ flag = ok h' ∧ c'.clear = c.clear ∧
      c'.signaturesRequired ≤ c'.numSignatures := by
  rcases hb.ready with ⟨d, privk, rfl, rfl, rfl, hr⟩ | ⟨d, rfl, rfl, hr⟩
  · -- a single signature, over the unsigned condition
    rw [hsteps.single]
    have hroom : ¬ numSignatures (.singlesig d) ≥ signaturesRequired (.singlesig d) := by
      simp [numSignatures, signaturesRequired, hr.unsigned]
    refine ⟨.singlesig { d with signature := (nextSignature crypto h₀ flag d.feeRate d.nonce privk).1 },
      (nextSignature crypto h₀ flag d.feeRate d.nonce privk).2, ?_,
      SinglesigSpendingCondition.verify_signed hs hr h₀ flag, rfl, ?_⟩
    · rw [signCondition, if_neg hroom]
      rfl
    · have hsigned := hs.sign_ne_empty privk
        (makeSighashPresign crypto h₀ flag d.feeRate d.nonce).bytes
      simp [numSignatures, signaturesRequired, nextSignature, hsigned]
  · -- the fields start empty; the run invariant carries them to the end
    obtain ⟨addr, haddr, hsigner⟩ := hr.signer_eq
    have hempty : verifyFields crypto flag d.feeRate d.nonce d.fields h₀ 0 false = ok ([], h₀, 0, false) := by
      rw [hr.unsigned]
      rfl
    obtain ⟨fs', h', hrun, hv, hcount⟩ := signCondition_multisig hs d h₀ flag tooMany steps d.fields h₀ [] 0
      false hempty (by rw [hr.unsigned]; rfl) (by simpa using hsteps.2)
    have hkeys : steps.map (crypto.publicKey ∘ SignStep.privk) = privks.map crypto.publicKey := by
      rw [← hsteps.1, List.map_map]
    have hany : (steps.any fun st => !crypto.compressPublic st.privk) =
        privks.any fun privk => !crypto.compressPublic privk := by
      rw [← hsteps.1, List.any_map]
      rfl
    rw [List.nil_append, hkeys, Bool.false_or, hany] at hv
    have hu : d.hashMode = .p2wsh → (privks.any fun privk => !crypto.compressPublic privk) = false := by
      intro hmode
      have hcompressed := fromPublicKeys_compressed haddr (.inr (by rw [hmode]; rfl))
      simpa [List.any_map] using hcompressed
    refine ⟨.multisig { d with fields := fs' }, h', hrun, ?_, rfl, ?_⟩
    · exact MultisigSpendingCondition.verify_of_verifyFields (d := { d with fields := fs' }) hv haddr
        hsigner hu
    · simp [numSignatures, signaturesRequired, hcount]

/-! ### The signer's calls on the transaction -/

namespace TransactionAuth

@[simp] theorem origin_withOrigin (c : TransactionSpendingCondition) (auth : TransactionAuth) :
    (auth.withOrigin c).origin = c := by
  cases auth <;> rfl

@[simp] theorem withOrigin_origin (auth : TransactionAuth) : auth.withOrigin auth.origin = auth := by
  cases auth <;> rfl

@[simp] theorem withOrigin_withOrigin (c c' : TransactionSpendingCondition) (auth : TransactionAuth) :
    (auth.withOrigin c).withOrigin c' = auth.withOrigin c' := by
  cases auth <;> rfl

end TransactionAuth

theorem StacksTransaction.signNextOrigin_eq (tx : StacksTransaction) (h : Txid) (privk : K) :
    tx.signNextOrigin crypto h privk =
      ({ tx with auth := tx.auth.withOrigin (signAndAppend crypto tx.auth.origin h .authStandard privk).1 },
        (signAndAppend crypto tx.auth.origin h .authStandard privk).2) := by
  unfold signNextOrigin
  split <;> rename_i heq <;> simp [heq, TransactionAuth.withOrigin, TransactionAuth.origin]

theorem StacksTransaction.appendNextOrigin_eq (tx : StacksTransaction) (pubk : StacksPublicKey) :
    tx.appendNextOrigin pubk =
      (appendPubkey tx.auth.origin pubk >>= fun c => ok { tx with auth := tx.auth.withOrigin c }) := by
  unfold appendNextOrigin
  split <;> rename_i heq <;> simp [heq, TransactionAuth.withOrigin, TransactionAuth.origin]

/-- The origin calls do to the transaction what `signCondition` does to its
origin condition, while no sponsor has signed. The induction is on the calls. -/
theorem signOrigins_of_signCondition :
    ∀ {steps : List (SignStep K)} {s : StacksTransactionSigner} {c' : TransactionSpendingCondition}
      {h' : Txid}, s.originDone = false → s.checkOversign = true →
      signCondition crypto .authStandard "Origin would have too many signatures" s.tx.auth.origin
        s.sighash steps = ok (c', h') →
      s.signOrigins crypto steps =
        ok { s with tx := { s.tx with auth := s.tx.auth.withOrigin c' }, sighash := h' }
  | [], s, c', h', _, _, hsc => by
    simp only [signCondition, ok.injEq, Prod.mk.injEq] at hsc
    obtain ⟨rfl, rfl⟩ := hsc
    rw [TransactionAuth.withOrigin_origin]
    rfl
  | .sign privk :: steps, s, c', h', hdone, hover, hsc => by
    rw [signCondition] at hsc
    split_ifs at hsc with hfull
    dsimp only at hsc
    generalize hnext :
      StacksTransaction.signAndAppend crypto s.tx.auth.origin s.sighash .authStandard privk = next at hsc
    have hstep : s.signOrigin crypto privk =
        ok { s with tx := { s.tx with auth := s.tx.auth.withOrigin next.1 }, sighash := next.2 } := by
      simp [StacksTransactionSigner.signOrigin, hdone, hover, hfull,
        StacksTransaction.signNextOrigin_eq, hnext]
    have hrest := signOrigins_of_signCondition
      (s := { s with tx := { s.tx with auth := s.tx.auth.withOrigin next.1 }, sighash := next.2 })
      hdone hover (by simpa using hsc)
    simp only [StacksTransactionSigner.signOrigins, StacksTransactionSigner.run, hstep, ok_bind] at hrest ⊢
    simpa using hrest
  | .append privk :: steps, s, c', h', hdone, hover, hsc => by
    obtain ⟨c₁, hc₁, hsc⟩ := bind_eq_ok.mp hsc
    have hstep : s.appendOrigin (crypto.publicKey privk) =
        ok { s with tx := { s.tx with auth := s.tx.auth.withOrigin c₁ } } := by
      simp [StacksTransactionSigner.appendOrigin, hdone, StacksTransaction.appendNextOrigin_eq, hc₁]
    have hrest := signOrigins_of_signCondition
      (s := { s with tx := { s.tx with auth := s.tx.auth.withOrigin c₁ } }) hdone hover (by simpa using hsc)
    simp only [StacksTransactionSigner.signOrigins, StacksTransactionSigner.run, hstep, ok_bind] at hrest ⊢
    simpa using hrest

theorem StacksTransaction.signNextSponsor_of_sponsored {tx : StacksTransaction}
    {origin sponsor : TransactionSpendingCondition} (hauth : tx.auth = .sponsored origin sponsor)
    (h : Txid) (privk : K) :
    tx.signNextSponsor crypto h privk =
      ok ({ tx with auth := .sponsored origin (signAndAppend crypto sponsor h .authSponsored privk).1 },
        (signAndAppend crypto sponsor h .authSponsored privk).2) := by
  simp [signNextSponsor, hauth]

theorem StacksTransaction.appendNextSponsor_of_sponsored {tx : StacksTransaction}
    {origin sponsor : TransactionSpendingCondition} (hauth : tx.auth = .sponsored origin sponsor)
    (pubk : StacksPublicKey) :
    tx.appendNextSponsor pubk =
      (appendPubkey sponsor pubk >>= fun c => ok { tx with auth := .sponsored origin c }) := by
  simp [appendNextSponsor, hauth]

/-- The sponsor calls do to the transaction what `signCondition` does to its
sponsor condition, once the origin is done. The induction is on the calls. -/
theorem signSponsors_of_signCondition {origin : TransactionSpendingCondition} :
    ∀ {steps : List (SignStep K)} {s : StacksTransactionSigner} {sponsor c' : TransactionSpendingCondition}
      {h' : Txid}, s.tx.auth = .sponsored origin sponsor → s.originDone = true →
      s.checkOversign = true →
      signCondition crypto .authSponsored "Sponsor would have too many signatures" sponsor s.sighash
        steps = ok (c', h') →
      s.signSponsors crypto steps =
        ok { s with tx := { s.tx with auth := .sponsored origin c' }, sighash := h' }
  | [], s, sponsor, c', h', hauth, _, _, hsc => by
    simp only [signCondition, ok.injEq, Prod.mk.injEq] at hsc
    obtain ⟨rfl, rfl⟩ := hsc
    rw [← hauth]
    rfl
  | .sign privk :: steps, s, sponsor, c', h', hauth, hdone, hover, hsc => by
    rw [signCondition] at hsc
    split_ifs at hsc with hfull
    dsimp only at hsc
    generalize hnext :
      StacksTransaction.signAndAppend crypto sponsor s.sighash .authSponsored privk = next at hsc
    -- `sign_sponsor` marks the origin done, which it already is
    have hstep : s.signSponsor crypto privk =
        ok { s with tx := { s.tx with auth := .sponsored origin next.1 }, sighash := next.2 } := by
      have hroom : ¬ sponsor.signaturesRequired ≤ sponsor.numSignatures := hfull
      obtain ⟨tx, sighash, originDone, checkOversign, checkOverlap⟩ := s
      dsimp only at hauth hnext hdone hover
      subst hdone hover
      simp [StacksTransactionSigner.signSponsor, hauth, hroom,
        StacksTransaction.signNextSponsor_of_sponsored hauth, hnext]
    have hrest := signSponsors_of_signCondition
      (s := { s with tx := { s.tx with auth := .sponsored origin next.1 }, sighash := next.2 })
      rfl hdone hover hsc
    simp only [StacksTransactionSigner.signSponsors, StacksTransactionSigner.run, hstep, ok_bind] at hrest ⊢
    simpa using hrest
  | .append privk :: steps, s, sponsor, c', h', hauth, hdone, hover, hsc => by
    obtain ⟨c₁, hc₁, hsc⟩ := bind_eq_ok.mp hsc
    have hstep : s.appendSponsor (crypto.publicKey privk) =
        ok { s with tx := { s.tx with auth := .sponsored origin c₁ } } := by
      simp [StacksTransactionSigner.appendSponsor, StacksTransaction.appendNextSponsor_of_sponsored hauth, hc₁]
    have hrest := signSponsors_of_signCondition
      (s := { s with tx := { s.tx with auth := .sponsored origin c₁ } }) rfl hdone hover hsc
    simp only [StacksTransactionSigner.signSponsors, StacksTransactionSigner.run, hstep, ok_bind] at hrest ⊢
    simpa using hrest

/-! ### The sighash the signer starts from -/

theorem TransactionSpendingCondition.consensusSerialize_ok (c : TransactionSpendingCondition) :
    ∃ b, c.consensusSerialize = ok b := by
  cases c with
  | singlesig data => exact ⟨_, rfl⟩
  | multisig data =>
    have hw : ∀ f : TransactionAuthField,
        ∃ b, (fun f : TransactionAuthField => (ok f.consensusSerialize : Outcome NetError Bytes)) f = ok b :=
      fun f => ⟨_, rfl⟩
    obtain ⟨fields, hfields⟩ := writeVec_ok hw data.fields
    exact ⟨_, by rw [consensusSerialize, MultisigSpendingCondition.consensusSerialize, hfields, ok_bind]⟩

/-- An authorization always serializes. -/
theorem TransactionAuth.consensusSerialize_ok (auth : TransactionAuth) :
    ∃ b, auth.consensusSerialize = ok b := by
  cases auth with
  | standard origin =>
    obtain ⟨b, hb⟩ := origin.consensusSerialize_ok
    exact ⟨_, by rw [consensusSerialize, hb, ok_bind]⟩
  | sponsored origin sponsor =>
    obtain ⟨b, hb⟩ := origin.consensusSerialize_ok
    obtain ⟨b', hb'⟩ := sponsor.consensusSerialize_ok
    exact ⟨_, by rw [consensusSerialize, hb, ok_bind, hb', ok_bind]⟩

/-- Whether a transaction serializes does not depend on its authorization. -/
theorem StacksTransaction.consensusSerialize_withAuth {tx : StacksTransaction} {b : Bytes}
    (hb : tx.consensusSerialize = ok b) (auth : TransactionAuth) :
    ∃ b', ({ tx with auth } : StacksTransaction).consensusSerialize = ok b' := by
  obtain ⟨_, -, hb⟩ := bind_eq_ok.mp hb
  obtain ⟨pcs, hpcs, hb⟩ := bind_eq_ok.mp hb
  obtain ⟨pb, hpb, -⟩ := bind_eq_ok.mp hb
  obtain ⟨ab, hab⟩ := auth.consensusSerialize_ok
  exact ⟨_, by rw [consensusSerialize, hab, ok_bind, hpcs, ok_bind, hpb, ok_bind]⟩

theorem StacksTransaction.consensusSerialize_withAuth_err {tx : StacksTransaction} {e : NetError}
    (he : tx.consensusSerialize = err e) (auth : TransactionAuth) :
    ({ tx with auth } : StacksTransaction).consensusSerialize = err e := by
  obtain ⟨ab, hab⟩ := tx.auth.consensusSerialize_ok
  obtain ⟨ab', hab'⟩ := auth.consensusSerialize_ok
  rw [consensusSerialize, hab, ok_bind] at he
  rw [consensusSerialize, hab', ok_bind]
  -- the error comes from the post-conditions or from the payload
  rcases bind_eq_err.mp he with hpcs | ⟨pcs, hpcs, he⟩
  · simp only [hpcs, err_bind]
  · rcases bind_eq_err.mp he with hpb | ⟨pb, hpb, he⟩
    · simp only [hpcs, hpb, ok_bind, err_bind]
    · cases he

theorem StacksTransaction.signBegin_of_consensusSerialize {tx : StacksTransaction} {b : Bytes}
    (hb : tx.consensusSerialize = ok b) : ∃ h, tx.signBegin crypto = some h := by
  obtain ⟨b', hb'⟩ := consensusSerialize_withAuth hb tx.auth.intoInitialSighashAuth
  exact ⟨_, by rw [signBegin, txid, hb']⟩

/-- The verifier starts from the signer's sighash when the authorizations
clear alike. -/
theorem StacksTransaction.verifyBegin_withAuth {tx : StacksTransaction} {auth : TransactionAuth}
    (h : auth.intoInitialSighashAuth = tx.auth.intoInitialSighashAuth) :
    ({ tx with auth } : StacksTransaction).verifyBegin crypto = tx.signBegin crypto := by
  simp only [verifyBegin, signBegin, h]

/-! ### Completeness -/

/-- Signing a standard transaction that serializes is complete: given the
keys of its condition in the order of its address, signing with as many as
it requires, the signer ends with a complete transaction that verifies. -/
theorem signer_complete_standard (hs : crypto.Sound) {tx : StacksTransaction}
    {c : TransactionSpendingCondition} {privks : List K} {m : Nat} {steps : List (SignStep K)}
    (hb : Built crypto c privks m) (hsteps : SignsWith steps privks m) (hauth : tx.auth = .standard c)
    {b : Bytes} (hser : tx.consensusSerialize = ok b) :
    ∃ s s' tx', StacksTransactionSigner.new crypto tx = some s ∧ s.signOrigins crypto steps = ok s' ∧
      s'.getTx = some tx' ∧ tx'.verify crypto = ok () := by
  obtain ⟨h₀, hbegin⟩ : ∃ h, tx.signBegin crypto = some h :=
    StacksTransaction.signBegin_of_consensusSerialize hser
  obtain ⟨c', h', hsc, hverify, hclear, hsigned⟩ :=
    signCondition_complete hs hb hsteps .authStandard "Origin would have too many signatures" h₀
  let s : StacksTransactionSigner := ⟨tx, h₀, false, true, true⟩
  have hrun := signOrigins_of_signCondition (s := s) rfl rfl
    (by simpa [s, hauth, TransactionAuth.origin] using hsc)
  have hinit : (TransactionAuth.standard c').intoInitialSighashAuth = tx.auth.intoInitialSighashAuth := by
    simp [hauth, TransactionAuth.intoInitialSighashAuth, hclear]
  refine ⟨s, _, { tx with auth := .standard c' }, by simp [StacksTransactionSigner.new, hbegin, s], hrun,
    ?_, ?_⟩
  · simp [StacksTransactionSigner.getTx, StacksTransactionSigner.complete, s, hauth,
      TransactionAuth.withOrigin, hsigned]
  · simp [StacksTransaction.verify, StacksTransaction.verifyBegin_withAuth hinit, hbegin,
      TransactionAuth.verify, TransactionAuth.verifyOrigin, TransactionAuth.origin, hverify]

/-- A testnet coinbase with the authorization `auth`. -/
def unitCoinbase (auth : TransactionAuth) : StacksTransaction :=
  .new .testnet auth (.coinbase (.replicate 32 0))

/-- A `P2PKH` coinbase of `unitCrypto`'s key, signed once. -/
theorem signer_complete_standard_unitCrypto :
    unitCrypto.Sound ∧ ∃ c, TransactionAuth.fromP2pkh unitCrypto () = some (.standard c) ∧
      SignsWith [SignStep.sign ()] [()] 1 ∧ ∃ b, (unitCoinbase (.standard c)).consensusSerialize = ok b ∧
      ∃ s s' tx', StacksTransactionSigner.new unitCrypto (unitCoinbase (.standard c)) = some s ∧
        s.signOrigins unitCrypto [.sign ()] = ok s' ∧ s'.getTx = some tx' ∧ tx'.verify unitCrypto = ok () := by
  refine ⟨unitCrypto_sound, _, rfl, ⟨rfl, rfl⟩, _, rfl, ?_⟩
  exact signer_complete_standard unitCrypto_sound (.p2pkh rfl) ⟨rfl, rfl⟩ rfl rfl

/-- Signing a sponsored transaction that serializes is complete: after the
origin's calls, `new_sponsor` with the sponsor condition starts from the
sighash the origin ended at, and after the sponsor's calls the transaction is
complete and verifies, its origin verifying to that sighash. -/
theorem signer_complete_sponsored (hs : crypto.Sound) {tx : StacksTransaction}
    {c cs : TransactionSpendingCondition} {privks privksS : List K} {m mS : Nat}
    {steps stepsS : List (SignStep K)} (hb : Built crypto c privks m) (hsteps : SignsWith steps privks m)
    (hbs : Built crypto cs privksS mS) (hstepsS : SignsWith stepsS privksS mS)
    (hauth : TransactionAuth.intoSponsored (.standard c) (.standard cs) = some tx.auth)
    {b : Bytes} (hser : tx.consensusSerialize = ok b) :
    ∃ s₀ s₁ s₂ s₃ tx', StacksTransactionSigner.new crypto tx = some s₀ ∧
      s₀.signOrigins crypto steps = ok s₁ ∧ StacksTransactionSigner.newSponsor crypto s₁.tx cs = ok s₂ ∧
      s₂.signSponsors crypto stepsS = ok s₃ ∧ s₃.getTx = some tx' ∧ tx'.verify crypto = ok () ∧
      tx'.verifyOrigin crypto = ok s₂.sighash := by
  have hauth' : tx.auth = .sponsored c cs := by
    simpa [TransactionAuth.intoSponsored] using hauth.symm
  obtain ⟨h₀, hbegin⟩ : ∃ h, tx.signBegin crypto = some h :=
    StacksTransaction.signBegin_of_consensusSerialize hser
  obtain ⟨c', h₁, hsc, hverify, hclear, hsigned⟩ :=
    signCondition_complete hs hb hsteps .authStandard "Origin would have too many signatures" h₀
  obtain ⟨cs', h₂, hscS, hverifyS, -, hsignedS⟩ :=
    signCondition_complete hs hbs hstepsS .authSponsored "Sponsor would have too many signatures" h₁
  -- the origin's calls
  let s₀ : StacksTransactionSigner := ⟨tx, h₀, false, true, true⟩
  have hrun := signOrigins_of_signCondition (s := s₀) rfl rfl
    (by simpa [s₀, hauth', TransactionAuth.origin] using hsc)
  -- the sentinel stands for any sponsor, so the verifier starts where the signer did
  have hinit : ∀ sponsor, (TransactionAuth.sponsored c' sponsor).intoInitialSighashAuth =
      tx.auth.intoInitialSighashAuth := by
    intro sponsor
    simp [hauth', TransactionAuth.intoInitialSighashAuth, hclear]
  have horigin : ∀ sponsor, ({ tx with auth := .sponsored c' sponsor } : StacksTransaction).verifyOrigin
      crypto = ok h₁ := by
    intro sponsor
    simp [StacksTransaction.verifyOrigin, StacksTransaction.verifyBegin_withAuth (hinit sponsor), hbegin,
      TransactionAuth.verifyOrigin, TransactionAuth.origin, hverify]
  -- `new_sponsor` picks up at the origin's last sighash
  let s₂ : StacksTransactionSigner := ⟨{ tx with auth := .sponsored c' cs }, h₁, true, true, true⟩
  have hsponsor : StacksTransactionSigner.newSponsor crypto { tx with auth := tx.auth.withOrigin c' } cs =
      ok s₂ := by
    simp [StacksTransactionSigner.newSponsor, hauth', TransactionAuth.withOrigin,
      TransactionAuth.isSponsored, TransactionAuth.setSponsor, horigin cs, s₂]
  -- the sponsor's calls
  have hrunS := signSponsors_of_signCondition (s := s₂) rfl rfl rfl hscS
  refine ⟨s₀, _, s₂, _, { tx with auth := .sponsored c' cs' },
    by simp [StacksTransactionSigner.new, hbegin, s₀], hrun, hsponsor, hrunS, ?_, ?_, horigin cs'⟩
  · simp [StacksTransactionSigner.getTx, StacksTransactionSigner.complete, s₂, hsigned, hsignedS]
  · simp [StacksTransaction.verify, StacksTransaction.verifyBegin_withAuth (hinit cs'), hbegin,
      TransactionAuth.verify, TransactionAuth.verifyOrigin, TransactionAuth.origin, hverify, hverifyS]

/-- A coinbase with a `P2PKH` origin and a `P2WPKH` sponsor, both of
`unitCrypto`'s key, each signed once. -/
theorem signer_complete_sponsored_unitCrypto :
    unitCrypto.Sound ∧ ∃ c cs, TransactionAuth.fromP2pkh unitCrypto () = some (.standard c) ∧
      TransactionAuth.fromP2wpkh unitCrypto () = some (.standard cs) ∧ SignsWith [SignStep.sign ()] [()] 1 ∧
      ∃ b, (unitCoinbase (.sponsored c cs)).consensusSerialize = ok b ∧
      ∃ s₀ s₁ s₂ s₃ tx', StacksTransactionSigner.new unitCrypto (unitCoinbase (.sponsored c cs)) = some s₀ ∧
        s₀.signOrigins unitCrypto [.sign ()] = ok s₁ ∧
        StacksTransactionSigner.newSponsor unitCrypto s₁.tx cs = ok s₂ ∧
        s₂.signSponsors unitCrypto [.sign ()] = ok s₃ ∧ s₃.getTx = some tx' ∧ tx'.verify unitCrypto = ok () ∧
        tx'.verifyOrigin unitCrypto = ok s₂.sighash := by
  refine ⟨unitCrypto_sound, _, _, rfl, rfl, ⟨rfl, rfl⟩, _, rfl, ?_⟩
  exact signer_complete_sponsored unitCrypto_sound (.p2pkh rfl) ⟨rfl, rfl⟩ (.p2wpkh rfl) ⟨rfl, rfl⟩ rfl rfl

/-! ### Transactions the signer cannot start -/

theorem StacksTransaction.consensusSerialize_of_payload_err {tx : StacksTransaction} {e : NetError}
    {pcs : Bytes} (hpcs : writeVec TransactionPostCondition.consensusSerialize tx.postConditions = ok pcs)
    (hp : tx.payload.consensusSerialize = err e) : tx.consensusSerialize = err e := by
  obtain ⟨ab, hab⟩ := tx.auth.consensusSerialize_ok
  simp only [consensusSerialize, hab, hpcs, hp, ok_bind, err_bind]

/-- The encoder refuses every contract name outside 5 to 40 bytes, though
`ContractName::try_from` admits names of 1 to 128. -/
theorem ContractName.consensusSerialize_eq_err {n : ContractName}
    (hlen : ¬ (CONTRACT_MIN_NAME_LENGTH ≤ n.bytes.length ∧ n.bytes.length ≤ CONTRACT_MAX_NAME_LENGTH)) :
    n.consensusSerialize = err (.serializeError "Failed to serialize contract name: too short or too long") := by
  simp only [consensusSerialize, writeName, hlen, decide_false, Bool.not_false, if_true]

/-- A transaction that does not serialize cannot be signed:
`StacksTransactionSigner::new` panics in the `expect` of `txid`. -/
theorem StacksTransactionSigner.new_eq_none {tx : StacksTransaction} {e : NetError}
    (he : tx.consensusSerialize = err e) : StacksTransactionSigner.new crypto tx = none := by
  have hbegin : tx.signBegin crypto = none := by
    simp only [StacksTransaction.signBegin, StacksTransaction.txid,
      StacksTransaction.consensusSerialize_withAuth_err he]
  simp only [StacksTransactionSigner.new, hbegin, Option.bind_eq_bind, Option.bind_none]

theorem signer_new_panics_on_short_contract_name (crypto : StacksCrypto K) (privk : K) :
    ∃ auth payload, TransactionAuth.fromP2pkh crypto privk = some auth ∧
      TransactionPayload.newSmartContract [97] [] = some payload ∧
      StacksTransactionSigner.new crypto (StacksTransaction.new .testnet auth payload) = none := by
  obtain ⟨auth, hauth⟩ : ∃ auth, TransactionAuth.fromP2pkh crypto privk = some auth := ⟨_, rfl⟩
  -- the name `a` passes `ContractName::try_from` and is one byte long
  let name : ContractName := ⟨[97], by decide⟩
  have hlen : ¬ (CONTRACT_MIN_NAME_LENGTH ≤ name.bytes.length ∧
      name.bytes.length ≤ CONTRACT_MAX_NAME_LENGTH) := by decide
  have hpayload : (TransactionPayload.smartContract ⟨name, ⟨[]⟩⟩).consensusSerialize =
      err (.serializeError "Failed to serialize contract name: too short or too long") := by
    simp only [TransactionPayload.consensusSerialize, ContractName.consensusSerialize_eq_err hlen, err_bind]
  refine ⟨auth, .smartContract ⟨name, ⟨[]⟩⟩, hauth, rfl, ?_⟩
  exact StacksTransactionSigner.new_eq_none (StacksTransaction.consensusSerialize_of_payload_err rfl hpayload)

end Complete

end BlockstackCore
