import BlockstackCore.Chainstate.Stacks.Signing

/-!
# What the signatures of a transaction bind

The first signature of the origin is made over
`presign(h₀, AuthStandard, fee rate, nonce)`, where `h₀` is the txid of the
transaction with its origin cleared and its sponsor replaced by a sentinel
(`verify_begin`). The first signature of a sponsor is made over
`presign(h, AuthSponsored, fee rate, nonce)`, where `h` is the sighash that
the origin's verification ends with.

Verification recovers a key from each signature and checks that the keys hash
to the condition's signer. So two verifications of one signer with the same
auth fields recovered the same keys, and the first signature recovered the same
point over both presign hashes. Public-key recovery (secp256k1's
`Q = r⁻¹(sR - zG)`) gives one point for each message hash, so the presign hashes
were the same, and so were what they hash. None of the hashes involved is
injective on all inputs: the collisions excluded are those between the inputs
that the two runs hash (`ConditionsApart`, `NoCollisions`).

`signed_fields_bound` is the result. The origin's first signature binds the
cleared transaction: version, chain id, anchor and post-condition modes, the
post-conditions and payload as serialized, whether the auth is sponsored, and
the origin's condition up to its signatures. It also binds the origin's nonce
and fee rate. The sponsor's first signature binds the sponsor's nonce and fee
rate.

That is all the signatures cover. A multi-signature condition that requires
no signature carries none, and then nothing is bound
(`unsignedOriginTx_verify`).
-/

namespace BlockstackCore

open ByteCodec Outcome TransactionSpendingCondition

variable {K : Type} {crypto : StacksCrypto K}

/-- The signature a field carries, if it is a signature. -/
def TransactionAuthField.getSignature : TransactionAuthField → Option MessageSignature
  | .signature _ sig => some sig
  | .publicKey _ => none

/-- The `Signature` values of a condition, in order. -/
def TransactionSpendingCondition.signatures : TransactionSpendingCondition → List MessageSignature
  | .singlesig data => [data.signature]
  | .multisig data => data.fields.filterMap TransactionAuthField.getSignature

/-- The signer hash of a condition. -/
def TransactionSpendingCondition.signer : TransactionSpendingCondition → Hash160
  | .singlesig data => data.signer
  | .multisig data => data.signer

/-- The auth fields of a condition: the one signature of a single-signature
condition, with its key encoding, or the fields of a multi-signature one. -/
def TransactionSpendingCondition.authFields : TransactionSpendingCondition → List TransactionAuthField
  | .singlesig data => [.signature data.keyEncoding data.signature]
  | .multisig data => data.fields

/-- What the address of a condition hashes besides its keys: the hash mode and
the number of signatures. -/
def TransactionSpendingCondition.addressMode : TransactionSpendingCondition → AddressHashMode × Nat
  | .singlesig data => (data.hashMode.toAddressHashMode, 1)
  | .multisig data => (data.hashMode.toAddressHashMode, data.signaturesRequired.toNat)

theorem TransactionSpendingCondition.signatures_eq_filterMap (c : TransactionSpendingCondition) :
    c.signatures = c.authFields.filterMap TransactionAuthField.getSignature := by
  cases c <;> rfl

/-- The bytes `make_sighash_presign` hashes. -/
def presignBytes (curSighash : Txid) (condCode : TransactionAuthFlags) (feeRate nonce : UInt64) :
    Bytes :=
  curSighash.bytes ++ [condCode.toU8] ++ writeU64 feeRate ++ writeU64 nonce

theorem makeSighashPresign_eq (h : Txid) (condCode : TransactionAuthFlags) (feeRate nonce : UInt64) :
    makeSighashPresign crypto h condCode feeRate nonce =
      crypto.txidFromSighashBytes (presignBytes h condCode feeRate nonce) := rfl

/-- The presign layout is fixed, so its bytes give back the sighash, the fee
rate and the nonce. -/
theorem presignBytes_inj {h h' : Txid} {condCode : TransactionAuthFlags} {feeRate feeRate' nonce nonce' : UInt64}
    (heq : presignBytes h condCode feeRate nonce = presignBytes h' condCode feeRate' nonce') :
    h = h' ∧ feeRate = feeRate' ∧ nonce = nonce' := by
  simp only [presignBytes, List.append_assoc] at heq
  have hlen : h.bytes.length = h'.bytes.length := by rw [h.length_eq, h'.length_eq]
  obtain ⟨hh, heq⟩ := List.append_inj heq hlen
  simp only [List.singleton_append, List.cons.injEq, true_and] at heq
  obtain ⟨hfee, hnonce⟩ := List.append_inj heq (by simp [writeU64])
  exact ⟨FixedBytes.bytes_injective hh, writeU64_injective hfee, writeU64_injective hnonce⟩

/-! ### The keys a verification hashes -/

/-- The keys that the verification of a condition hashes into its signer: the
key recovered from a single signature, or the keys of a multi-signature
condition's fields, recovered or given. -/
def TransactionSpendingCondition.verifiedKeys (crypto : StacksCrypto K) (h : Txid)
    (flag : TransactionAuthFlags) : TransactionSpendingCondition → Outcome NetError (List StacksPublicKey)
  | .singlesig data => do
    let (pubkey, _) ← nextVerification crypto h flag data.feeRate data.nonce data.keyEncoding data.signature
    ok [pubkey]
  | .multisig data => do
    let (pubkeys, _) ← verifyFields crypto flag data.feeRate data.nonce data.fields h 0 false
    ok pubkeys

theorem StacksAddress.fromPublicKeys_eq_some {version : UInt8} {hashMode : AddressHashMode}
    {numSigs : Nat} {pubkeys : List StacksPublicKey} {addr : StacksAddress}
    (h : StacksAddress.fromPublicKeys crypto version hashMode numSigs pubkeys = some addr) :
    addr.bytes = crypto.publicKeysToAddressHash hashMode numSigs pubkeys := by
  unfold StacksAddress.fromPublicKeys at h
  split_ifs at h
  cases h
  rfl

/-- A verification step recovers a point from the signature over the presign
hash, and gives the key with the compression its encoding names. -/
theorem nextVerification_eq_ok {h : Txid} {flag : TransactionAuthFlags} {feeRate nonce : UInt64}
    {keyEncoding : TransactionPublicKeyEncoding} {sig : MessageSignature} {r : StacksPublicKey × Txid}
    (hv : nextVerification crypto h flag feeRate nonce keyEncoding sig = ok r) :
    ∃ point, crypto.recoverToPubkey (makeSighashPresign crypto h flag feeRate nonce).bytes sig =
      some point ∧ r.1 = ⟨point, keyEncoding == .compressed⟩ := by
  obtain ⟨point, hpoint, hr⟩ := bind_eq_ok.mp hv
  exact ⟨point, ofOption_eq_ok.mp hpoint, by rw [← ok.inj hr]⟩

/-- A condition that verifies has as signer the address hash of the keys its
verification recovered. -/
theorem TransactionSpendingCondition.verify_signer {c : TransactionSpendingCondition} {h r : Txid}
    {flag : TransactionAuthFlags} (hv : c.verify crypto h flag = ok r) :
    ∃ keys, c.verifiedKeys crypto h flag = ok keys ∧
      c.signer = crypto.publicKeysToAddressHash c.addressMode.1 c.addressMode.2 keys := by
  cases c with
  | singlesig d =>
    obtain ⟨⟨pubkey, next⟩, hnext, hv⟩ := bind_eq_ok.mp hv
    refine ⟨[pubkey], by simp only [verifiedKeys, hnext, ok_bind], ?_⟩
    cases haddr : StacksAddress.fromPublicKeys crypto 0 d.hashMode.toAddressHashMode 1 [pubkey] with
    | none => simp [haddr] at hv
    | some addr =>
      simp only [haddr, ne_eq, ite_not] at hv
      split_ifs at hv with hsigner
      exact hsigner.symm.trans (StacksAddress.fromPublicKeys_eq_some haddr)
  | multisig d =>
    obtain ⟨⟨pubkeys, cur, numSigs, uncompressed⟩, hfields, hv⟩ := bind_eq_ok.mp hv
    refine ⟨pubkeys, by simp only [verifiedKeys, hfields, ok_bind], ?_⟩
    simp only at hv
    split_ifs at hv
    cases haddr : StacksAddress.fromPublicKeys crypto 0 d.hashMode.toAddressHashMode
        d.signaturesRequired.toNat pubkeys with
    | none => simp [haddr] at hv
    | some addr =>
      simp only [haddr, ne_eq, ite_not] at hv
      split_ifs at hv with hsigner
      exact hsigner.symm.trans (StacksAddress.fromPublicKeys_eq_some haddr)

/-- The verifier's loop recovers a point from the first signature over the
presign of the sighash it starts from, and keeps it as the key at the position
of the first signature field: the keys before it leave the sighash alone. -/
theorem verifyFields_first_signature {flag : TransactionAuthFlags} {feeRate nonce : UInt64}
    {sig : MessageSignature} {rest : List MessageSignature} :
    ∀ {fields : List TransactionAuthField} {h : Txid} {n : Nat} {u : Bool}
      {r : List StacksPublicKey × Txid × Nat × Bool},
      verifyFields crypto flag feeRate nonce fields h n u = ok r →
      fields.filterMap TransactionAuthField.getSignature = sig :: rest →
      ∃ point, crypto.recoverToPubkey (makeSighashPresign crypto h flag feeRate nonce).bytes sig =
        some point ∧ (r.1[fields.findIdx TransactionAuthField.isSignature]?).map (·.key) = some point
  | [], _, _, _, _, _, hs => by simp at hs
  | .publicKey _ :: _, _, _, _, _, hv, hs => by
    obtain ⟨⟨pubkeys, rest'⟩, hrest, hr⟩ := bind_eq_ok.mp hv
    cases hr
    obtain ⟨point, hpoint, hkey⟩ := verifyFields_first_signature hrest hs
    exact ⟨point, hpoint, by simpa [List.findIdx_cons, TransactionAuthField.isSignature] using hkey⟩
  | .signature _ sigbuf :: _, _, _, _, _, hv, hs => by
    simp only [List.filterMap_cons, TransactionAuthField.getSignature, List.cons.injEq] at hs
    obtain ⟨rfl, -⟩ := hs
    obtain ⟨⟨pubkey, next⟩, hnext, hv⟩ := bind_eq_ok.mp hv
    obtain ⟨point, hpoint, hpk⟩ := nextVerification_eq_ok hnext
    obtain ⟨_, -, hv⟩ := bind_eq_ok.mp hv
    obtain ⟨⟨pubkeys, rest'⟩, -, hr⟩ := bind_eq_ok.mp hv
    cases hr
    refine ⟨point, hpoint, ?_⟩
    simp only at hpk
    simp [List.findIdx_cons, TransactionAuthField.isSignature, hpk]

/-- A condition that verifies recovers a point from its first signature over
the presign of the initial sighash, its fee rate and its nonce, and hashes it
into its signer as the key at the position of its first signature field. -/
theorem TransactionSpendingCondition.verify_first_signature {c : TransactionSpendingCondition}
    {h r : Txid} {flag : TransactionAuthFlags} {sig : MessageSignature} {rest : List MessageSignature}
    (hv : c.verify crypto h flag = ok r) (hs : c.signatures = sig :: rest) :
    ∃ keys point, c.verifiedKeys crypto h flag = ok keys ∧
      crypto.recoverToPubkey (makeSighashPresign crypto h flag c.feeRate c.nonce).bytes sig = some point ∧
      (keys[c.authFields.findIdx TransactionAuthField.isSignature]?).map (·.key) = some point := by
  cases c with
  | singlesig d =>
    simp only [signatures, List.cons.injEq] at hs
    obtain ⟨rfl, -⟩ := hs
    obtain ⟨⟨pubkey, next⟩, hnext, -⟩ := bind_eq_ok.mp hv
    obtain ⟨point, hpoint, hpk⟩ := nextVerification_eq_ok hnext
    simp only at hpk
    refine ⟨[pubkey], point, by simp only [verifiedKeys, hnext, ok_bind], hpoint, ?_⟩
    simp [authFields, TransactionAuthField.isSignature, hpk]
  | multisig d =>
    obtain ⟨⟨pubkeys, cur, numSigs, uncompressed⟩, hfields, -⟩ := bind_eq_ok.mp hv
    obtain ⟨point, hpoint, hkey⟩ := verifyFields_first_signature hfields hs
    exact ⟨pubkeys, point, by simp only [verifiedKeys, hfields, ok_bind], hpoint, hkey⟩

/-! ### The runs -/

/-- The transaction `verify_begin` hashes: the origin cleared and the sponsor
replaced by the sentinel. -/
def StacksTransaction.initialSighashTx (tx : StacksTransaction) : StacksTransaction :=
  { tx with auth := tx.auth.intoInitialSighashAuth }

/-- Verifications of conditions `c` and `c'` from the sighashes `h` and `h'`
meet no collision: the presign bytes of their first signatures hash apart, the
first signature recovers points apart over the two presign hashes, and the
inputs of the two address hashes hash apart. -/
structure ConditionsApart (crypto : StacksCrypto K) (flag : TransactionAuthFlags)
    (c c' : TransactionSpendingCondition) (h h' : Txid) : Prop where
  presign : Set.InjOn crypto.txidFromSighashBytes
    {presignBytes h flag c.feeRate c.nonce, presignBytes h' flag c'.feeRate c'.nonce}
  recover : ∀ sig rest, c.signatures = sig :: rest →
    Set.InjOn (fun m : Txid => crypto.recoverToPubkey m.bytes sig)
      {makeSighashPresign crypto h flag c.feeRate c.nonce, makeSighashPresign crypto h' flag c'.feeRate c'.nonce}
  address : ∀ keys keys', c.verifiedKeys crypto h flag = ok keys → c'.verifiedKeys crypto h' flag = ok keys' →
    Set.InjOn (fun x : AddressHashMode × Nat × List StacksPublicKey =>
        crypto.publicKeysToAddressHash x.1 x.2.1 x.2.2)
      {(c.addressMode.1, c.addressMode.2, keys), (c'.addressMode.1, c'.addressMode.2, keys')}

/-- A verification meets no collision with itself. -/
theorem ConditionsApart.self (crypto : StacksCrypto K) (flag : TransactionAuthFlags)
    (c : TransactionSpendingCondition) (h : Txid) : ConditionsApart crypto flag c c h h where
  presign := by simp
  recover _ _ _ := by simp
  address keys keys' hk hk' := by
    rw [hk, ok.injEq] at hk'
    subst hk'
    simp

/-- The hashes meet no collision between the inputs that the verifications of
`tx` and `tx'` hash: the cleared transactions, and the inputs of the origins'
and of the sponsors' verifications. -/
structure NoCollisions (crypto : StacksCrypto K) (tx tx' : StacksTransaction) : Prop where
  initial : ∀ b b', tx.initialSighashTx.consensusSerialize = ok b →
    tx'.initialSighashTx.consensusSerialize = ok b' → Set.InjOn crypto.txidFromStacksTx {b, b'}
  origin : ∀ h h', tx.verifyBegin crypto = some h → tx'.verifyBegin crypto = some h' →
    ConditionsApart crypto .authStandard tx.auth.origin tx'.auth.origin h h'
  sponsor : ∀ h h' origin sponsor origin' sponsor', tx.verifyOrigin crypto = ok h →
    tx'.verifyOrigin crypto = ok h' → tx.auth = .sponsored origin sponsor →
    tx'.auth = .sponsored origin' sponsor' → ConditionsApart crypto .authSponsored sponsor sponsor' h h'

/-- Two conditions of one signer with the same auth fields that verify were
signed over the same presign bytes, unless the runs collide, so over the same
sighash, fee rate and nonce. Equal signers give equal keys, so the first
signature recovered one point over both presign hashes. -/
theorem first_signature_bound {c c' : TransactionSpendingCondition} {h h' r r' : Txid}
    {flag : TransactionAuthFlags} (hapart : ConditionsApart crypto flag c c' h h')
    (hv : c.verify crypto h flag = ok r) (hv' : c'.verify crypto h' flag = ok r')
    (hsigner : c.signer = c'.signer) (hfields : c.authFields = c'.authFields) (hne : c.signatures ≠ []) :
    h = h' ∧ c.nonce = c'.nonce ∧ c.feeRate = c'.feeRate := by
  obtain ⟨sig, rest, hs⟩ := List.exists_cons_of_ne_nil hne
  have hs' : c'.signatures = sig :: rest := by
    rw [TransactionSpendingCondition.signatures_eq_filterMap, ← hfields,
      ← TransactionSpendingCondition.signatures_eq_filterMap, hs]
  obtain ⟨keys, point, hkeys, hp, hkey⟩ := TransactionSpendingCondition.verify_first_signature hv hs
  obtain ⟨keys', point', hkeys', hp', hkey'⟩ := TransactionSpendingCondition.verify_first_signature hv' hs'
  -- the signers are the address hashes of the recovered keys, so the keys agree
  obtain ⟨_, hk, haddr⟩ := TransactionSpendingCondition.verify_signer hv
  obtain ⟨_, hk', haddr'⟩ := TransactionSpendingCondition.verify_signer hv'
  rw [hkeys, ok.injEq] at hk
  rw [hkeys', ok.injEq] at hk'
  subst hk hk'
  have hinputs := Set.injOn_pair.mp (hapart.address keys keys' hkeys hkeys')
    (haddr.symm.trans (hsigner.trans haddr'))
  have hkeq : keys = keys' := congrArg (fun x => x.2.2) hinputs
  -- so the first signature recovered one point over both presign hashes
  rw [hkeq, hfields, hkey'] at hkey
  have hpoint : point' = point := Option.some.inj hkey
  have hpresign := Set.injOn_pair.mp (hapart.recover sig rest hs) (hp.trans (hpoint ▸ hp'.symm))
  rw [makeSighashPresign_eq, makeSighashPresign_eq] at hpresign
  obtain ⟨hh, hfee, hnonce⟩ := presignBytes_inj (Set.injOn_pair.mp hapart.presign hpresign)
  exact ⟨hh, hnonce, hfee⟩

/-! ### Where the runs start and end -/

theorem StacksTransaction.verify_eq_ok {tx : StacksTransaction} (hv : tx.verify crypto = ok ()) :
    ∃ h, tx.verifyBegin crypto = some h ∧ tx.auth.verify crypto h = ok () := by
  obtain ⟨h, hbegin, hv⟩ := bind_eq_ok.mp hv
  cases hb : tx.verifyBegin crypto with
  | none => simp [hb] at hbegin
  | some h₀ =>
    simp only [hb, expect_some, ok.injEq] at hbegin
    exact ⟨h₀, rfl, hbegin ▸ hv⟩

/-- An authorization that verifies: the origin verifies, and so does the
sponsor, from the sighash the origin ends with. -/
theorem TransactionAuth.verify_eq_ok {auth : TransactionAuth} {h₀ : Txid}
    (hv : auth.verify crypto h₀ = ok ()) :
    ∃ h, auth.verifyOrigin crypto h₀ = ok h ∧
      ∀ origin sponsor, auth = .sponsored origin sponsor →
        ∃ h', sponsor.verify crypto h .authSponsored = ok h' := by
  obtain ⟨h, horigin, hv⟩ := bind_eq_ok.mp hv
  refine ⟨h, horigin, ?_⟩
  rintro origin sponsor rfl
  obtain ⟨h', hsponsor, -⟩ := bind_eq_ok.mp hv
  exact ⟨h', hsponsor⟩

theorem StacksTransaction.verifyBegin_eq_some {tx : StacksTransaction} {h : Txid}
    (hb : tx.verifyBegin crypto = some h) :
    ∃ b, tx.initialSighashTx.consensusSerialize = ok b ∧ h = crypto.txidFromStacksTx b := by
  unfold verifyBegin txid at hb
  split at hb
  · rename_i b hser
    exact ⟨b, hser, (Option.some.inj hb).symm⟩
  · cases hb

/-! ### The layout of the cleared transaction -/

/-- The post-conditions and the payload, as `consensus_serialize` writes them
after the modes. -/
def StacksTransaction.bodySerialize (tx : StacksTransaction) : Outcome NetError Bytes := do
  ok ((← writeVec TransactionPostCondition.consensusSerialize tx.postConditions) ++
    (← tx.payload.consensusSerialize))

theorem StacksTransaction.consensusSerialize_eq_ok {tx : StacksTransaction} {b : Bytes}
    (hb : tx.consensusSerialize = ok b) :
    ∃ a body, tx.auth.consensusSerialize = ok a ∧ tx.bodySerialize = ok body ∧
      b = tx.version.toU8 :: (beBytes 4 tx.chainId.toNat ++
        (a ++ (tx.anchorMode.toU8 :: tx.postConditionMode.toU8 :: body))) := by
  obtain ⟨a, ha, hb⟩ := bind_eq_ok.mp hb
  obtain ⟨pcs, hpcs, hb⟩ := bind_eq_ok.mp hb
  obtain ⟨pl, hpl, hb⟩ := bind_eq_ok.mp hb
  refine ⟨a, pcs ++ pl, ha, by simp only [bodySerialize, hpcs, hpl, ok_bind], ?_⟩
  simpa using (ok.inj hb).symm

theorem clear_singlesig_consensusSerialize (d : SinglesigSpendingCondition) :
    (TransactionSpendingCondition.singlesig d).clear.consensusSerialize =
      ok (d.hashMode.toU8 :: (d.signer.bytes ++ (writeU64 0 ++ (writeU64 0 ++
        d.keyEncoding.toU8 :: MessageSignature.empty.bytes)))) := by
  simp [clear, consensusSerialize, SinglesigSpendingCondition.consensusSerialize]

theorem clear_multisig_consensusSerialize (d : MultisigSpendingCondition) :
    (TransactionSpendingCondition.multisig d).clear.consensusSerialize =
      ok (d.hashMode.toU8 :: (d.signer.bytes ++ (writeU64 0 ++ (writeU64 0 ++
        (beBytes 4 0 ++ writeU16 d.signaturesRequired))))) := by
  simp [clear, consensusSerialize, MultisigSpendingCondition.consensusSerialize, writeVec, writeItems]

/-- A cleared condition is read back from its bytes, whatever follows them:
the hash-mode byte gives its kind, and the kind its length. -/
theorem clear_consensusSerialize_inj {c c' : TransactionSpendingCondition} {b b' r r' : Bytes}
    (hb : c.clear.consensusSerialize = ok b) (hb' : c'.clear.consensusSerialize = ok b')
    (h : b ++ r = b' ++ r') : c.clear = c'.clear ∧ r = r' := by
  have hsigner : ∀ s s' : Hash160, s.bytes.length = s'.bytes.length := fun s s' => by
    rw [s.length_eq, s'.length_eq]
  cases c with
  | singlesig d =>
    cases c' with
    | singlesig d' =>
      rw [clear_singlesig_consensusSerialize, ok.injEq] at hb hb'
      subst hb hb'
      simp only [List.cons_append, List.append_assoc, List.cons.injEq] at h
      obtain ⟨hmode, h⟩ := h
      obtain ⟨hs, h⟩ := List.append_inj h (hsigner _ _)
      simp only [List.append_cancel_left_eq, List.cons.injEq] at h
      obtain ⟨henc, h⟩ := h
      refine ⟨?_, h⟩
      simp only [clear, SinglesigHashMode.toU8_injective hmode, FixedBytes.bytes_injective hs,
        TransactionPublicKeyEncoding.toU8_injective henc]
    | multisig d' =>
      rw [clear_singlesig_consensusSerialize, ok.injEq] at hb
      rw [clear_multisig_consensusSerialize, ok.injEq] at hb'
      subst hb hb'
      simp only [List.cons_append, List.cons.injEq] at h
      exact absurd h.1.symm (MultisigHashMode.toU8_ne_singlesig _ _)
  | multisig d =>
    cases c' with
    | singlesig d' =>
      rw [clear_multisig_consensusSerialize, ok.injEq] at hb
      rw [clear_singlesig_consensusSerialize, ok.injEq] at hb'
      subst hb hb'
      simp only [List.cons_append, List.cons.injEq] at h
      exact absurd h.1 (MultisigHashMode.toU8_ne_singlesig _ _)
    | multisig d' =>
      rw [clear_multisig_consensusSerialize, ok.injEq] at hb hb'
      subst hb hb'
      simp only [List.cons_append, List.append_assoc, List.cons.injEq] at h
      obtain ⟨hmode, h⟩ := h
      obtain ⟨hs, h⟩ := List.append_inj h (hsigner _ _)
      simp only [List.append_cancel_left_eq] at h
      obtain ⟨hreq, h⟩ := List.append_inj h (by simp [writeU16])
      refine ⟨?_, h⟩
      simp only [clear, MultisigHashMode.toU8_injective hmode, FixedBytes.bytes_injective hs,
        writeU16_injective hreq]

/-- A cleared authorization is read back from its bytes, whatever follows
them: the flag byte, the cleared origin, and the sentinel sponsor. -/
theorem intoInitialSighashAuth_consensusSerialize_inj {auth auth' : TransactionAuth}
    {a a' r r' : Bytes} (ha : auth.intoInitialSighashAuth.consensusSerialize = ok a)
    (ha' : auth'.intoInitialSighashAuth.consensusSerialize = ok a') (h : a ++ r = a' ++ r') :
    auth.isSponsored = auth'.isSponsored ∧ auth.origin.clear = auth'.origin.clear ∧ r = r' := by
  cases auth with
  | standard origin =>
    obtain ⟨co, hco, ha⟩ := bind_eq_ok.mp ha
    cases auth' with
    | standard origin' =>
      obtain ⟨co', hco', ha'⟩ := bind_eq_ok.mp ha'
      rw [← ok.inj ha, ← ok.inj ha'] at h
      simp only [List.cons_append, List.cons.injEq, true_and] at h
      exact ⟨rfl, clear_consensusSerialize_inj hco hco' h⟩
    | sponsored origin' sponsor' =>
      obtain ⟨co', -, ha'⟩ := bind_eq_ok.mp ha'
      obtain ⟨_, -, ha'⟩ := bind_eq_ok.mp ha'
      rw [← ok.inj ha, ← ok.inj ha'] at h
      simp only [List.cons_append, List.append_assoc, List.cons.injEq] at h
      exact absurd h.1 (by decide)
  | sponsored origin sponsor =>
    obtain ⟨co, hco, ha⟩ := bind_eq_ok.mp ha
    obtain ⟨so, hso, ha⟩ := bind_eq_ok.mp ha
    cases auth' with
    | standard origin' =>
      obtain ⟨co', -, ha'⟩ := bind_eq_ok.mp ha'
      rw [← ok.inj ha, ← ok.inj ha'] at h
      simp only [List.cons_append, List.append_assoc, List.cons.injEq] at h
      exact absurd h.1 (by decide)
    | sponsored origin' sponsor' =>
      obtain ⟨co', hco', ha'⟩ := bind_eq_ok.mp ha'
      obtain ⟨so', hso', ha'⟩ := bind_eq_ok.mp ha'
      -- both sponsors are the sentinel
      have hsentinel : so = so' := ok.inj (hso.symm.trans hso')
      rw [← ok.inj ha, ← ok.inj ha', hsentinel] at h
      simp only [List.cons_append, List.append_assoc, List.cons.injEq, true_and] at h
      obtain ⟨hclear, hrest⟩ := clear_consensusSerialize_inj hco hco' h
      exact ⟨rfl, hclear, List.append_cancel_left hrest⟩

/-- Two transactions whose cleared forms serialize alike agree on everything
the cleared form keeps. -/
theorem initialSighashTx_consensusSerialize_inj {tx tx' : StacksTransaction} {b : Bytes}
    (hb : tx.initialSighashTx.consensusSerialize = ok b)
    (hb' : tx'.initialSighashTx.consensusSerialize = ok b) :
    tx.version = tx'.version ∧ tx.chainId = tx'.chainId ∧
      tx.auth.isSponsored = tx'.auth.isSponsored ∧ tx.auth.origin.clear = tx'.auth.origin.clear ∧
      tx.anchorMode = tx'.anchorMode ∧ tx.postConditionMode = tx'.postConditionMode ∧
      tx.bodySerialize = tx'.bodySerialize := by
  obtain ⟨a, body, ha, hbody, rfl⟩ := StacksTransaction.consensusSerialize_eq_ok hb
  obtain ⟨a', body', ha', hbody', h⟩ := StacksTransaction.consensusSerialize_eq_ok hb'
  simp only [List.cons.injEq] at h
  obtain ⟨hversion, h⟩ := h
  obtain ⟨hchain, h⟩ := List.append_inj h (by simp)
  obtain ⟨hsponsored, hclear, h⟩ := intoInitialSighashAuth_consensusSerialize_inj ha ha' h
  simp only [List.cons.injEq] at h
  obtain ⟨hanchor, hmode, rfl⟩ := h
  refine ⟨TransactionVersion.toU8_injective hversion,
    UInt32.toNat_inj.mp (beBytes_inj_of_lt tx.chainId.toNat_lt tx'.chainId.toNat_lt hchain),
    hsponsored, hclear, TransactionAnchorMode.toU8_injective hanchor,
    TransactionPostConditionMode.toU8_injective hmode, ?_⟩
  -- the body does not read the authorization
  exact hbody.trans hbody'.symm

/-! ### Binding -/

/-- What the origin's first signature commits to, as two transactions agree
on it. -/
structure SignedAlike (tx tx' : StacksTransaction) : Prop where
  version : tx.version = tx'.version
  chainId : tx.chainId = tx'.chainId
  isSponsored : tx.auth.isSponsored = tx'.auth.isSponsored
  originClear : tx.auth.origin.clear = tx'.auth.origin.clear
  anchorMode : tx.anchorMode = tx'.anchorMode
  postConditionMode : tx.postConditionMode = tx'.postConditionMode
  body : tx.bodySerialize = tx'.bodySerialize
  originNonce : tx.auth.origin.nonce = tx'.auth.origin.nonce
  originFeeRate : tx.auth.origin.feeRate = tx'.auth.origin.feeRate

/-- Two transactions that verify, whose origins have one signer and the same
auth fields with at least one signature, agree on every field the origin signs.
If both are sponsored and their sponsors have one signer and the same auth
fields with at least one signature, they agree on the sponsor's nonce and fee
rate. The two runs meet no hash collision. -/
theorem signed_fields_bound {tx tx' : StacksTransaction} (hcol : NoCollisions crypto tx tx')
    (hv : tx.verify crypto = ok ()) (hv' : tx'.verify crypto = ok ())
    (hsigner : tx.auth.origin.signer = tx'.auth.origin.signer)
    (hfields : tx.auth.origin.authFields = tx'.auth.origin.authFields)
    (hne : tx.auth.origin.signatures ≠ []) :
    SignedAlike tx tx' ∧
      ∀ origin sponsor origin' sponsor', tx.auth = .sponsored origin sponsor →
        tx'.auth = .sponsored origin' sponsor' → sponsor.signer = sponsor'.signer →
        sponsor.authFields = sponsor'.authFields → sponsor.signatures ≠ [] →
        sponsor.nonce = sponsor'.nonce ∧ sponsor.feeRate = sponsor'.feeRate := by
  obtain ⟨h₀, hbegin, hauth⟩ := StacksTransaction.verify_eq_ok hv
  obtain ⟨h₀', hbegin', hauth'⟩ := StacksTransaction.verify_eq_ok hv'
  obtain ⟨o, horigin, hsponsor⟩ := TransactionAuth.verify_eq_ok hauth
  obtain ⟨o', horigin', hsponsor'⟩ := TransactionAuth.verify_eq_ok hauth'
  -- the origins' first signatures were made over the same presign bytes
  obtain ⟨hh, hnonce, hfee⟩ :=
    first_signature_bound (hcol.origin h₀ h₀' hbegin hbegin') horigin horigin' hsigner hfields hne
  -- so the cleared transactions hash alike, hence serialize alike
  obtain ⟨b, hb, rfl⟩ := StacksTransaction.verifyBegin_eq_some hbegin
  obtain ⟨b', hb', rfl⟩ := StacksTransaction.verifyBegin_eq_some hbegin'
  have hbb : b = b' := hcol.initial b b' hb hb' (by simp) (by simp) hh
  subst hbb
  obtain ⟨hversion, hchain, hsponsored, hclear, hanchor, hmode, hbody⟩ :=
    initialSighashTx_consensusSerialize_inj hb hb'
  refine ⟨⟨hversion, hchain, hsponsored, hclear, hanchor, hmode, hbody, hnonce, hfee⟩, ?_⟩
  -- the sponsors' first signatures were made over the same presign bytes
  intro origin sponsor origin' sponsor' hsp hsp' hssigner hsfields hsne
  obtain ⟨_, hs⟩ := hsponsor origin sponsor hsp
  obtain ⟨_, hs'⟩ := hsponsor' origin' sponsor' hsp'
  have hto : tx.verifyOrigin crypto = ok o := by
    simp only [StacksTransaction.verifyOrigin, hbegin, expect_some, ok_bind, horigin]
  have hto' : tx'.verifyOrigin crypto = ok o' := by
    simp only [StacksTransaction.verifyOrigin, hbegin', expect_some, ok_bind, horigin']
  obtain ⟨-, hsnonce, hsfee⟩ := first_signature_bound
    (hcol.sponsor o o' origin sponsor origin' sponsor' hto hto' hsp hsp') hs hs' hssigner hsfields hsne
  exact ⟨hsnonce, hsfee⟩

/-- The first 32 bytes, padded with zeros. -/
def maskPrefix (b : Bytes) : Txid := ⟨(b ++ List.replicate 32 0).take 32, by simp⟩

/-- The byte of an address hash mode. -/
def maskModeByte : AddressHashMode → UInt8
  | .serializeP2PKH => 0
  | .serializeP2SH => 1
  | .serializeP2WPKH => 2
  | .serializeP2WSH => 3

/-- A scheme over 33-byte keys, each its own point. A signature is the message
masked by the key, and recovery unmasks it with the message: like secp256k1
recovery, it recovers a point over every message, a different one for each.
The hashes keep the first 32 bytes, and an address is the hash mode followed by
19 bytes of the first key. -/
def maskCrypto : StacksCrypto (FixedBytes 33) where
  txidFromStacksTx := maskPrefix
  txidFromSighashBytes := maskPrefix
  publicPoint k := k
  compressPublic _ := true
  sign k m := ⟨List.zipWith (· ^^^ ·) ((m ++ List.replicate 33 0).take 33) k.bytes ++ List.replicate 32 0, by
    simp only [List.length_append, List.length_zipWith, List.length_take, List.length_replicate, k.length_eq]
    omega⟩
  recoverToPubkey m sig := some ⟨List.zipWith (· ^^^ ·) ((m ++ List.replicate 33 0).take 33) (sig.bytes.take 33), by
    simp only [List.length_zipWith, List.length_take, List.length_append, List.length_replicate, sig.length_eq]
    omega⟩
  publicKeysToAddressHash mode _ keys :=
    ⟨maskModeByte mode ::
      (((keys.head?.map fun k : StacksPublicKey => k.key.bytes).getD []) ++ List.replicate 19 0).take 19, by simp⟩

/-- The key of the witness's origin and sponsor. -/
def maskKey : FixedBytes 33 := ⟨2 :: List.replicate 32 7, by simp⟩

/-- A sponsored coinbase whose origin and sponsor hold `maskKey`, the sponsor
under the given single-signature hash mode, with the given signatures. -/
def maskTx (sponsorMode : SinglesigHashMode) (sig sponsorSig : MessageSignature) : StacksTransaction where
  version := .testnet
  chainId := 0x80000000
  auth := .sponsored
    (.singlesig ⟨.p2pkh, maskCrypto.publicKeysToAddressHash .serializeP2PKH 1 [⟨maskKey, true⟩], 0, 0,
      .compressed, sig⟩)
    (.singlesig ⟨sponsorMode, maskCrypto.publicKeysToAddressHash sponsorMode.toAddressHashMode 1
      [⟨maskKey, true⟩], 0, 0, .compressed, sponsorSig⟩)
  anchorMode := .onChainOnly
  postConditionMode := .deny
  postConditions := []
  payload := .coinbase (.replicate 32 0)

/-- `maskTx` signed. The hashes keep the first 32 bytes, so every sighash of
the chain is the initial one. -/
def maskSigned (sponsorMode : SinglesigHashMode) : StacksTransaction :=
  let h₀ := ((maskTx sponsorMode MessageSignature.empty MessageSignature.empty).verifyBegin maskCrypto).getD
    (maskPrefix [])
  maskTx sponsorMode (maskCrypto.sign maskKey (makeSighashPresign maskCrypto h₀ .authStandard 0 0).bytes)
    (maskCrypto.sign maskKey (makeSighashPresign maskCrypto h₀ .authSponsored 0 0).bytes)

/-- The two runs over the signed transactions, whose sponsors differ in hash
mode, meet no collision: they hash the same cleared transaction and the same
presign bytes, and their sponsors' address hashes differ in the mode byte. -/
theorem noCollisions_maskSigned : NoCollisions maskCrypto (maskSigned .p2pkh) (maskSigned .p2wpkh) where
  initial b b' hb hb' := by
    have hsame : (maskSigned .p2pkh).initialSighashTx = (maskSigned .p2wpkh).initialSighashTx := by decide
    rw [hsame, hb', ok.injEq] at hb
    subst hb
    simp
  origin h h' hb hb' := by
    have hsame : (maskSigned .p2pkh).verifyBegin maskCrypto = (maskSigned .p2wpkh).verifyBegin maskCrypto := by
      decide
    have horigin : (maskSigned .p2pkh).auth.origin = (maskSigned .p2wpkh).auth.origin := by decide
    rw [hsame, hb', Option.some.injEq] at hb
    subst hb
    rw [horigin]
    exact ConditionsApart.self _ _ _ _
  sponsor h h' origin sponsor origin' sponsor' ho ho' hauth hauth' := by
    have hsame : (maskSigned .p2pkh).verifyOrigin maskCrypto = (maskSigned .p2wpkh).verifyOrigin maskCrypto := by
      decide
    rw [hsame, ho', ok.injEq] at ho
    subst ho
    obtain ⟨-, rfl⟩ := TransactionAuth.sponsored.inj hauth
    obtain ⟨-, rfl⟩ := TransactionAuth.sponsored.inj hauth'
    refine ⟨by simp [TransactionSpendingCondition.feeRate, TransactionSpendingCondition.nonce],
      fun _ _ _ => by simp [TransactionSpendingCondition.feeRate, TransactionSpendingCondition.nonce], ?_⟩
    -- the two sponsors' address hashes begin with their hash modes
    intro keys keys' _ _
    rw [Set.injOn_pair]
    intro heq
    have hmode := congrArg (fun a : Hash160 => a.bytes.head?) heq
    simp [maskCrypto, TransactionSpendingCondition.addressMode, SinglesigHashMode.toAddressHashMode,
      maskModeByte] at hmode

/-- Two transactions that differ in their sponsor's hash mode and signer verify
and bind each other's origin fields. -/
theorem signed_fields_bound_maskSigned :
    NoCollisions maskCrypto (maskSigned .p2pkh) (maskSigned .p2wpkh) ∧
      (maskSigned .p2pkh).verify maskCrypto = ok () ∧ (maskSigned .p2wpkh).verify maskCrypto = ok () ∧
      (maskSigned .p2pkh).auth.origin.signer = (maskSigned .p2wpkh).auth.origin.signer ∧
      (maskSigned .p2pkh).auth.origin.authFields = (maskSigned .p2wpkh).auth.origin.authFields ∧
      (maskSigned .p2pkh).auth.origin.signatures ≠ [] ∧ maskSigned .p2pkh ≠ maskSigned .p2wpkh ∧
      (SignedAlike (maskSigned .p2pkh) (maskSigned .p2wpkh) ∧
        ∀ origin sponsor origin' sponsor', (maskSigned .p2pkh).auth = .sponsored origin sponsor →
          (maskSigned .p2wpkh).auth = .sponsored origin' sponsor' → sponsor.signer = sponsor'.signer →
          sponsor.authFields = sponsor'.authFields → sponsor.signatures ≠ [] →
          sponsor.nonce = sponsor'.nonce ∧ sponsor.feeRate = sponsor'.feeRate) := by
  have hv : (maskSigned .p2pkh).verify maskCrypto = ok () := by decide
  have hv' : (maskSigned .p2wpkh).verify maskCrypto = ok () := by decide
  have hsigner : (maskSigned .p2pkh).auth.origin.signer = (maskSigned .p2wpkh).auth.origin.signer := by decide
  have hfields : (maskSigned .p2pkh).auth.origin.authFields = (maskSigned .p2wpkh).auth.origin.authFields := by
    decide
  have hne : (maskSigned .p2pkh).auth.origin.signatures ≠ [] := by decide
  exact ⟨noCollisions_maskSigned, hv, hv', hsigner, hfields, hne, by decide,
    signed_fields_bound noCollisions_maskSigned hv hv' hsigner hfields hne⟩

/-! ### What no signature binds -/

/-- A standard coinbase transaction whose origin is a `P2SH` condition over
one key that requires no signature. -/
def unsignedOriginTx (crypto : StacksCrypto K) (pubkey : StacksPublicKey) (nonce : UInt64)
    (buf : FixedBytes 32) : StacksTransaction where
  version := .testnet
  chainId := 0x80000000
  auth := .standard (.multisig ⟨.p2sh, crypto.publicKeysToAddressHash .serializeP2SH 0 [pubkey],
    nonce, 0, [.publicKey pubkey], 0⟩)
  anchorMode := .onChainOnly
  postConditionMode := .deny
  postConditions := []
  payload := .coinbase buf

/-- It verifies under every scheme, with no signature, whatever its nonce and
payload: `from_public_keys` accepts a threshold of zero for `P2SH`. -/
theorem unsignedOriginTx_verify (crypto : StacksCrypto K) (pubkey : StacksPublicKey) (nonce : UInt64)
    (buf : FixedBytes 32) :
    (unsignedOriginTx crypto pubkey nonce buf).verify crypto = ok () ∧
      (unsignedOriginTx crypto pubkey nonce buf).auth.origin.signatures = [] := by
  -- the cleared transaction serializes, with the signer left abstract
  obtain ⟨h₀, hbegin⟩ : ∃ h₀, (unsignedOriginTx crypto pubkey nonce buf).verifyBegin crypto = some h₀ :=
    ⟨_, rfl⟩
  have haddr : StacksAddress.fromPublicKeys crypto 0 .serializeP2SH 0 [pubkey] =
      some ⟨0, crypto.publicKeysToAddressHash .serializeP2SH 0 [pubkey]⟩ := by
    simp [StacksAddress.fromPublicKeys]
  refine ⟨?_, rfl⟩
  rw [StacksTransaction.verify, hbegin, expect_some, ok_bind]
  simp [TransactionAuth.verify, TransactionAuth.verifyOrigin, TransactionAuth.origin, unsignedOriginTx,
    TransactionSpendingCondition.verify, MultisigSpendingCondition.verify, verifyFields_publicKey,
    MultisigHashMode.toAddressHashMode, haddr]

/-- Two transactions whose origins have one signer and the same auth fields,
with the same list of signatures, the empty one, both verify and differ in
nonce and payload. `unsignedOriginTx_verify` gives the same under every
scheme; here it is `maskCrypto`, whose recovery returns a point over every
message. -/
theorem signatures_bind_nothing_unsigned :
    (unsignedOriginTx maskCrypto ⟨maskKey, true⟩ 0 ⟨List.replicate 32 0, by simp⟩).verify maskCrypto = ok () ∧
      (unsignedOriginTx maskCrypto ⟨maskKey, true⟩ 1 ⟨List.replicate 32 1, by simp⟩).verify maskCrypto = ok () ∧
      (unsignedOriginTx maskCrypto ⟨maskKey, true⟩ 0 ⟨List.replicate 32 0, by simp⟩).auth.origin.signatures =
        (unsignedOriginTx maskCrypto ⟨maskKey, true⟩ 1 ⟨List.replicate 32 1, by simp⟩).auth.origin.signatures ∧
      (unsignedOriginTx maskCrypto ⟨maskKey, true⟩ 0 ⟨List.replicate 32 0, by simp⟩).auth.origin.signer =
        (unsignedOriginTx maskCrypto ⟨maskKey, true⟩ 1 ⟨List.replicate 32 1, by simp⟩).auth.origin.signer ∧
      (unsignedOriginTx maskCrypto ⟨maskKey, true⟩ 0 ⟨List.replicate 32 0, by simp⟩).auth.origin.authFields =
        (unsignedOriginTx maskCrypto ⟨maskKey, true⟩ 1 ⟨List.replicate 32 1, by simp⟩).auth.origin.authFields ∧
      (unsignedOriginTx maskCrypto ⟨maskKey, true⟩ 0 ⟨List.replicate 32 0, by simp⟩).auth.origin.nonce ≠
        (unsignedOriginTx maskCrypto ⟨maskKey, true⟩ 1 ⟨List.replicate 32 1, by simp⟩).auth.origin.nonce ∧
      (unsignedOriginTx maskCrypto ⟨maskKey, true⟩ 0 ⟨List.replicate 32 0, by simp⟩).payload ≠
        (unsignedOriginTx maskCrypto ⟨maskKey, true⟩ 1 ⟨List.replicate 32 1, by simp⟩).payload := by
  obtain ⟨hv₀, hs₀⟩ := unsignedOriginTx_verify maskCrypto ⟨maskKey, true⟩ 0 ⟨List.replicate 32 0, by simp⟩
  obtain ⟨hv₁, hs₁⟩ := unsignedOriginTx_verify maskCrypto ⟨maskKey, true⟩ 1 ⟨List.replicate 32 1, by simp⟩
  exact ⟨hv₀, hv₁, hs₀.trans hs₁.symm, rfl, rfl, by decide, by decide⟩

end BlockstackCore
