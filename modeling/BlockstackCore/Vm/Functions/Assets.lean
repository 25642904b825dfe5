import BlockstackCore.Library.ByteCodec
import BlockstackCore.Library.FinsumUpdate
import BlockstackCore.Vm.Types.Value

/-!
# Fungible tokens

`ft-mint?` and `ft-transfer?` (`vm/functions/assets.rs`), `define-fungible-token`
(`vm/functions/define.rs` and the contract initialization in `vm/mod.rs`), and
the asset functions of `ClarityDatabase` they call (`vm/database/clarity_db.rs`).

The database is modelled by what these functions read and write: a `u128` at
each token key and the metadata of each token. A key stands for the string that
`make_key_for_quad` or `make_key_for_trip` builds from its parts; distinct parts
give distinct keys. The special functions start after their arguments are
evaluated, and their cost, memory and event bookkeeping is left out.

A transaction runs operations one after another and is committed only if none
fails: a failing operation aborts it, and the rollback of the database discards
every write it made, the partial ones of the failing operation included (as
`checked_increase_token_supply` writes the new supply before the recipient's
balance is checked). A nested call that is rolled back leaves the writes of the
calls around it, so committed states are those that sequences of operations,
each sequence succeeding as a whole, reach from the empty database.
-/

namespace BlockstackCore

open ByteCodec Outcome

/-- `Value::err_uint`. -/
def Value.errUInt (n : Nat) : Value := .response false (.uInt (BitVec.ofNat 128 n))

/-- `Value::okay_true`. -/
def Value.okayTrue : Value := .response true (.bool true)

def MintTokenErrorCodes.NON_POSITIVE_AMOUNT : Nat := 1

def TransferTokenErrorCodes.NOT_ENOUGH_BALANCE : Nat := 1

def TransferTokenErrorCodes.SENDER_IS_RECIPIENT : Nat := 2

def TransferTokenErrorCodes.NON_POSITIVE_AMOUNT : Nat := 3

structure FungibleTokenMetadata where
  totalSupply : Option Nat
  deriving DecidableEq, Repr

/-- The data keys of a token: a principal's balance, and the supply in circulation. -/
inductive TokenKey where
  | balance (contract : QualifiedContractIdentifier) (token : ClarityName) (principal : PrincipalData)
  | circulatingSupply (contract : QualifiedContractIdentifier) (token : ClarityName)
  deriving DecidableEq

/-- What the token functions read and write of a `ClarityDatabase`. -/
structure TokenDatabase where
  data : TokenKey → Option Nat
  metadata : QualifiedContractIdentifier → ClarityName → Option FungibleTokenMetadata

namespace TokenDatabase

def empty : TokenDatabase := ⟨fun _ => none, fun _ _ => none⟩

def put (db : TokenDatabase) (key : TokenKey) (value : Nat) : TokenDatabase :=
  { db with data := Function.update db.data key (some value) }

/-- `create_fungible_token`: the metadata, and a supply of 0 if there is a total supply. -/
def createFungibleToken (db : TokenDatabase) (contractIdentifier : QualifiedContractIdentifier)
    (tokenName : ClarityName) (totalSupply : Option Nat) : TokenDatabase :=
  let db := { db with
    metadata := Function.update db.metadata contractIdentifier
      (Function.update (db.metadata contractIdentifier) tokenName (some ⟨totalSupply⟩)) }
  if totalSupply.isSome then db.put (.circulatingSupply contractIdentifier tokenName) 0 else db

def loadFt (db : TokenDatabase) (contractIdentifier : QualifiedContractIdentifier)
    (tokenName : ClarityName) : Except ClarityError FungibleTokenMetadata :=
  match db.metadata contractIdentifier tokenName with
  | some data => .ok data
  | none => .error (.unchecked (.noSuchFT tokenName))

/-- `checked_increase_token_supply`. The supply of a token with a total supply is
expected to be stored; its absence panics. -/
def checkedIncreaseTokenSupply (db : TokenDatabase) (contractIdentifier : QualifiedContractIdentifier)
    (tokenName : ClarityName) (amount : Nat) : Outcome ClarityError TokenDatabase := do
  let descriptor ← ofExcept (db.loadFt contractIdentifier tokenName)
  match descriptor.totalSupply with
  | some totalSupply =>
    let currentSupply ← expect (db.data (.circulatingSupply contractIdentifier tokenName))
    let newSupply ← ofOption (.runtime .arithmeticOverflow) (checkedAdd 128 currentSupply amount)
    if newSupply > totalSupply then err (.runtime (.supplyOverflow newSupply totalSupply))
    else ok (db.put (.circulatingSupply contractIdentifier tokenName) newSupply)
  | none => ok db

/-- `get_ft_balance`: a principal without a stored balance has 0. -/
def getFtBalance (db : TokenDatabase) (contractIdentifier : QualifiedContractIdentifier)
    (tokenName : ClarityName) (principal : PrincipalData) : Except ClarityError Nat := do
  let _ ← db.loadFt contractIdentifier tokenName
  match db.data (.balance contractIdentifier tokenName principal) with
  | none => .ok 0
  | some balance => .ok balance

def setFtBalance (db : TokenDatabase) (contractIdentifier : QualifiedContractIdentifier)
    (tokenName : ClarityName) (principal : PrincipalData) (balance : Nat) : TokenDatabase :=
  db.put (.balance contractIdentifier tokenName principal) balance

end TokenDatabase

/-- `special_mint_token`, in the contract `contractIdentifier`, on the evaluated
amount and recipient. -/
def specialMintToken (db : TokenDatabase) (contractIdentifier : QualifiedContractIdentifier)
    (tokenName : ClarityName) (amount toValue : Value) : Outcome ClarityError (Value × TokenDatabase) :=
  match amount, toValue with
  | .uInt amount, .principal toPrincipal =>
    if amount.toNat ≤ 0 then ok (Value.errUInt MintTokenErrorCodes.NON_POSITIVE_AMOUNT, db)
    else do
      let db ← db.checkedIncreaseTokenSupply contractIdentifier tokenName amount.toNat
      let toBal ← ofExcept (db.getFtBalance contractIdentifier tokenName toPrincipal)
      let finalToBal ← ofOption (.runtime .arithmeticOverflow) (checkedAdd 128 toBal amount.toNat)
      ok (Value.okayTrue, db.setFtBalance contractIdentifier tokenName toPrincipal finalToBal)
  | _, _ => err (.unchecked .badMintFTArguments)

/-- `special_transfer_token`, in the contract `contractIdentifier`, on the
evaluated amount, sender and recipient. -/
def specialTransferToken (db : TokenDatabase) (contractIdentifier : QualifiedContractIdentifier)
    (tokenName : ClarityName) (amount fromValue toValue : Value) :
    Outcome ClarityError (Value × TokenDatabase) :=
  match amount, fromValue, toValue with
  | .uInt amount, .principal fromPrincipal, .principal toPrincipal =>
    if amount.toNat ≤ 0 then ok (Value.errUInt TransferTokenErrorCodes.NON_POSITIVE_AMOUNT, db)
    else if fromPrincipal = toPrincipal then
      ok (Value.errUInt TransferTokenErrorCodes.SENDER_IS_RECIPIENT, db)
    else do
      let fromBal ← ofExcept (db.getFtBalance contractIdentifier tokenName fromPrincipal)
      if fromBal < amount.toNat then ok (Value.errUInt TransferTokenErrorCodes.NOT_ENOUGH_BALANCE, db)
      else do
        let finalFromBal := fromBal - amount.toNat
        let toBal ← ofExcept (db.getFtBalance contractIdentifier tokenName toPrincipal)
        let finalToBal ← ofOption (.runtime .arithmeticOverflow) (checkedAdd 128 toBal amount.toNat)
        let db := db.setFtBalance contractIdentifier tokenName fromPrincipal finalFromBal
        ok (Value.okayTrue, db.setFtBalance contractIdentifier tokenName toPrincipal finalToBal)
  | _, _, _ => err (.unchecked .badTransferFTArguments)

/-- The state committed token operations change: the database, and the names each
contract has defined (the `persisted_names` of its contract context, which a
contract keeps for good, since a contract is deployed once). -/
structure TokenState where
  database : TokenDatabase
  persistedNames : QualifiedContractIdentifier → List ClarityName

def TokenState.empty : TokenState := ⟨TokenDatabase.empty, fun _ => []⟩

/-- The total supply of `handle_define_fungible_token`: its evaluated value must
be a `uint`. -/
def totalSupplyOf : Option Value → Outcome ClarityError (Option Nat)
  | some (.uInt totalSupplyInt) => ok (some totalSupplyInt.toNat)
  | some totalSupplyValue => err (.typeValueError .uIntType totalSupplyValue)
  | none => ok none

/-- A total supply is a `u128`. -/
theorem lt_of_totalSupplyOf {v : Option Value} {total : Nat} (h : totalSupplyOf v = ok (some total)) :
    total < 2 ^ 128 := by
  unfold totalSupplyOf at h
  split at h
  · rename_i totalSupplyInt
    cases h
    exact totalSupplyInt.isLt
  · cases h
  · cases h

/-- `define-fungible-token`: `check_legal_define`, the total supply, then
`create_fungible_token`. -/
def defineFungibleToken (st : TokenState) (contractIdentifier : QualifiedContractIdentifier)
    (name : ClarityName) (totalSupply : Option Value) : Outcome ClarityError TokenState := do
  if name ∈ st.persistedNames contractIdentifier then err (.unchecked (.nameAlreadyUsed name))
  else
    let totalSupply ← totalSupplyOf totalSupply
    ok { persistedNames := Function.update st.persistedNames contractIdentifier
           (name :: st.persistedNames contractIdentifier)
         database := st.database.createFungibleToken contractIdentifier name totalSupply }

/-- One operation on tokens, in the contract that runs it. -/
inductive TokenOp where
  | define (contractIdentifier : QualifiedContractIdentifier) (name : ClarityName)
      (totalSupply : Option Value)
  | ftMint (contractIdentifier : QualifiedContractIdentifier) (tokenName : ClarityName)
      (amount toValue : Value)
  | ftTransfer (contractIdentifier : QualifiedContractIdentifier) (tokenName : ClarityName)
      (amount fromValue toValue : Value)

def TokenOp.exec (st : TokenState) : TokenOp → Outcome ClarityError TokenState
  | .define c name totalSupply => defineFungibleToken st c name totalSupply
  | .ftMint c tokenName amount toValue => do
    let (_, db) ← specialMintToken st.database c tokenName amount toValue
    ok { st with database := db }
  | .ftTransfer c tokenName amount fromValue toValue => do
    let (_, db) ← specialTransferToken st.database c tokenName amount fromValue toValue
    ok { st with database := db }

/-- The states committed transactions reach from the empty database: a
transaction is committed when all its operations succeed. -/
inductive Committed : TokenState → Prop where
  | empty : Committed TokenState.empty
  | commit {st st' : TokenState} (ops : List TokenOp) :
      Committed st → ops.foldlM TokenOp.exec st = ok st' → Committed st'

/-! ### What the database functions read and write -/

namespace TokenDatabase

/-- The balances of a token, as `get_ft_balance` reads them. -/
def balanceOf (db : TokenDatabase) (c : QualifiedContractIdentifier) (t : ClarityName)
    (p : PrincipalData) : Nat :=
  (db.data (.balance c t p)).getD 0

variable {db : TokenDatabase} {c : QualifiedContractIdentifier} {t : ClarityName}

@[simp] theorem balanceOf_put_supply (c' : QualifiedContractIdentifier) (t' : ClarityName) (v : Nat) :
    (db.put (.circulatingSupply c' t') v).balanceOf c t = db.balanceOf c t := by
  funext p
  simp [balanceOf, put]

theorem balanceOf_setFtBalance (p : PrincipalData) (v : Nat) :
    (db.setFtBalance c t p v).balanceOf c t = Function.update (db.balanceOf c t) p v := by
  funext q
  by_cases hq : q = p
  · subst hq
    simp [balanceOf, setFtBalance, put]
  · simp [balanceOf, setFtBalance, put, hq]

/-- A balance written for one token leaves the balances of every other token. -/
theorem balanceOf_setFtBalance_of_ne {c' : QualifiedContractIdentifier} {t' : ClarityName}
    (hne : (c', t') ≠ (c, t)) (p : PrincipalData) (v : Nat) :
    (db.setFtBalance c t p v).balanceOf c' t' = db.balanceOf c' t' := by
  funext q
  have hkey : TokenKey.balance c' t' q ≠ .balance c t p := by
    intro h
    cases h
    exact hne rfl
  simp [balanceOf, setFtBalance, put, Function.update_of_ne hkey]

@[simp] theorem supply_setFtBalance (c' : QualifiedContractIdentifier) (t' : ClarityName)
    (p : PrincipalData) (v : Nat) :
    (db.setFtBalance c t p v).data (.circulatingSupply c' t') = db.data (.circulatingSupply c' t') := by
  simp [setFtBalance, put]

theorem getFtBalance_eq {md : FungibleTokenMetadata} (hmeta : db.metadata c t = some md)
    (p : PrincipalData) : db.getFtBalance c t p = .ok (db.balanceOf c t p) := by
  simp only [getFtBalance, loadFt, hmeta, balanceOf]
  cases db.data (.balance c t p) <;> rfl

theorem getFtBalance_eq_ok {p : PrincipalData} {b : Nat} (h : db.getFtBalance c t p = .ok b) :
    ∃ md, db.metadata c t = some md ∧ b = db.balanceOf c t p := by
  cases hmeta : db.metadata c t with
  | none => simp [getFtBalance, loadFt, hmeta] at h
  | some md =>
    rw [getFtBalance_eq hmeta] at h
    cases h
    exact ⟨md, rfl, rfl⟩

/-- What `checked_increase_token_supply` writes when it succeeds: nothing for a
token without a total supply, and otherwise the supply raised by the amount,
within the total. -/
theorem checkedIncreaseTokenSupply_eq_ok {amount : Nat} {db' : TokenDatabase}
    (h : db.checkedIncreaseTokenSupply c t amount = ok db') :
    ∃ md, db.metadata c t = some md ∧
      match md.totalSupply with
      | some total => ∃ s, db.data (.circulatingSupply c t) = some s ∧ s + amount ≤ total ∧
          s + amount < 2 ^ 128 ∧ db' = db.put (.circulatingSupply c t) (s + amount)
      | none => db' = db := by
  cases hmeta : db.metadata c t with
  | none => simp [checkedIncreaseTokenSupply, loadFt, hmeta] at h
  | some md =>
    refine ⟨md, rfl, ?_⟩
    simp only [checkedIncreaseTokenSupply, loadFt, hmeta, ofExcept_ok, ok_bind] at h
    cases htotal : md.totalSupply with
    | none =>
      rw [htotal] at h
      exact (ok.inj h).symm
    | some total =>
      rw [htotal] at h
      cases hs : db.data (.circulatingSupply c t) with
      | none => simp [hs] at h
      | some s =>
        simp only [hs, expect_some, ok_bind, checkedAdd] at h
        by_cases hfit : s + amount < 2 ^ 128
        · simp only [hfit, if_true, ofOption_some, ok_bind] at h
          by_cases hover : s + amount > total
          · simp [hover] at h
          · simp only [hover, if_false] at h
            exact ⟨s, rfl, by omega, hfit, (ok.inj h).symm⟩
        · simp only [hfit, if_false, ofOption_none, err_bind] at h
          cases h

end TokenDatabase

theorem ofExcept_eq_ok {ε α : Type} {x : Except ε α} {a : α} (h : ofExcept x = ok a) : x = .ok a := by
  cases x with
  | ok b => cases h; rfl
  | error e => cases h

section Specs

variable {db db' : TokenDatabase} {c : QualifiedContractIdentifier} {t : ClarityName} {v : Value}

/-- What `ft-mint?` does when it returns: nothing, with an error code, or it raises
the supply as `checked_increase_token_supply` does and then the recipient's
balance by the amount. -/
theorem specialMintToken_eq_ok {amount toValue : Value}
    (h : specialMintToken db c t amount toValue = ok (v, db')) :
    (v = Value.errUInt MintTokenErrorCodes.NON_POSITIVE_AMOUNT ∧ db' = db) ∨
      ∃ a q db₁, amount = .uInt a ∧ toValue = .principal q ∧ v = Value.okayTrue ∧
        db.checkedIncreaseTokenSupply c t a.toNat = ok db₁ ∧
        db₁.balanceOf c t q + a.toNat < 2 ^ 128 ∧
        db' = db₁.setFtBalance c t q (db₁.balanceOf c t q + a.toNat) := by
  unfold specialMintToken at h
  split at h
  · rename_i a q
    by_cases ha : a.toNat ≤ 0
    -- the error code changes nothing
    · rw [if_pos ha] at h
      obtain ⟨rfl, rfl⟩ := Prod.mk.inj (ok.inj h)
      exact .inl ⟨rfl, rfl⟩
    · rw [if_neg ha] at h
      obtain ⟨db₁, hinc, h⟩ := bind_eq_ok.mp h
      obtain ⟨bal, hbal, h⟩ := bind_eq_ok.mp h
      obtain ⟨fin, hfin, h⟩ := bind_eq_ok.mp h
      obtain ⟨md, -, rfl⟩ := TokenDatabase.getFtBalance_eq_ok (ofExcept_eq_ok hbal)
      simp only [ofOption_eq_ok, checkedAdd] at hfin
      split at hfin
      · rename_i hfit
        cases hfin
        obtain ⟨rfl, rfl⟩ := Prod.mk.inj (ok.inj h)
        exact .inr ⟨a, q, db₁, rfl, rfl, rfl, hinc, hfit, rfl⟩
      · cases hfin
  · cases h

/-- What `ft-transfer?` does when it returns: nothing, with an error code, or it
moves the amount from the sender's balance, which holds it, to a different
recipient's. -/
theorem specialTransferToken_eq_ok {amount fromValue toValue : Value}
    (h : specialTransferToken db c t amount fromValue toValue = ok (v, db')) :
    db' = db ∨
      ∃ a p q, amount = .uInt a ∧ fromValue = .principal p ∧ toValue = .principal q ∧ p ≠ q ∧
        v = Value.okayTrue ∧ (∃ md, db.metadata c t = some md) ∧ a.toNat ≤ db.balanceOf c t p ∧
        db.balanceOf c t q + a.toNat < 2 ^ 128 ∧
        db' = (db.setFtBalance c t p (db.balanceOf c t p - a.toNat)).setFtBalance c t q
          (db.balanceOf c t q + a.toNat) := by
  unfold specialTransferToken at h
  split at h
  · rename_i a p q
    by_cases ha : a.toNat ≤ 0
    · rw [if_pos ha] at h
      exact .inl (Prod.mk.inj (ok.inj h)).2.symm
    rw [if_neg ha] at h
    by_cases hpq : p = q
    · rw [if_pos hpq] at h
      exact .inl (Prod.mk.inj (ok.inj h)).2.symm
    rw [if_neg hpq] at h
    obtain ⟨fromBal, hfrom, h⟩ := bind_eq_ok.mp h
    obtain ⟨md, hmeta, rfl⟩ := TokenDatabase.getFtBalance_eq_ok (ofExcept_eq_ok hfrom)
    by_cases hlow : db.balanceOf c t p < a.toNat
    · rw [if_pos hlow] at h
      exact .inl (Prod.mk.inj (ok.inj h)).2.symm
    rw [if_neg hlow] at h
    obtain ⟨toBal, hto, h⟩ := bind_eq_ok.mp h
    obtain ⟨-, -, rfl⟩ := TokenDatabase.getFtBalance_eq_ok (ofExcept_eq_ok hto)
    obtain ⟨fin, hfin, h⟩ := bind_eq_ok.mp h
    simp only [ofOption_eq_ok, checkedAdd] at hfin
    split at hfin
    · rename_i hfit
      cases hfin
      obtain ⟨rfl, rfl⟩ := Prod.mk.inj (ok.inj h)
      exact .inr ⟨a, p, q, rfl, rfl, rfl, hpq, rfl, ⟨md, hmeta⟩, by omega, hfit, rfl⟩
    · cases hfin
  · cases h

end Specs

/-! ### Conservation -/

namespace TokenDatabase

variable {db : TokenDatabase} {c c' : QualifiedContractIdentifier} {t t' : ClarityName}

theorem supply_put_of_ne (hne : (c', t') ≠ (c, t)) (v : Nat) :
    (db.put (.circulatingSupply c t) v).data (.circulatingSupply c' t') =
      db.data (.circulatingSupply c' t') := by
  have hkey : TokenKey.circulatingSupply c' t' ≠ .circulatingSupply c t := by
    intro h
    cases h
    exact hne rfl
  simp [put, Function.update_of_ne hkey]

theorem metadata_createFungibleToken (ts : Option Nat) :
    (db.createFungibleToken c t ts).metadata c' t' =
      if c' = c ∧ t' = t then some ⟨ts⟩ else db.metadata c' t' := by
  unfold createFungibleToken
  split <;> by_cases hc : c' = c <;> by_cases ht : t' = t <;> simp_all [put]

@[simp] theorem balanceOf_createFungibleToken (ts : Option Nat) :
    (db.createFungibleToken c t ts).balanceOf c' t' = db.balanceOf c' t' := by
  funext p
  unfold createFungibleToken
  split <;> simp [balanceOf, put]

theorem supply_createFungibleToken_of_ne (hne : (c', t') ≠ (c, t)) (ts : Option Nat) :
    (db.createFungibleToken c t ts).data (.circulatingSupply c' t') =
      db.data (.circulatingSupply c' t') := by
  unfold createFungibleToken
  split
  · exact supply_put_of_ne hne 0
  · rfl

/-- `checked_increase_token_supply` writes the supply of its own token only. -/
theorem checkedIncreaseTokenSupply_frame {amount : Nat} {db' : TokenDatabase}
    (h : db.checkedIncreaseTokenSupply c t amount = ok db') :
    db'.metadata = db.metadata ∧ (∀ c' t', db'.balanceOf c' t' = db.balanceOf c' t') ∧
      ∀ c' t', (c', t') ≠ (c, t) →
        db'.data (.circulatingSupply c' t') = db.data (.circulatingSupply c' t') := by
  obtain ⟨md, -, hcase⟩ := checkedIncreaseTokenSupply_eq_ok h
  cases htotal : md.totalSupply with
  | none =>
    rw [htotal] at hcase
    subst hcase
    exact ⟨rfl, fun _ _ => rfl, fun _ _ _ => rfl⟩
  | some total =>
    rw [htotal] at hcase
    obtain ⟨s, -, -, -, rfl⟩ := hcase
    exact ⟨rfl, fun _ _ => balanceOf_put_supply _ _ _, fun _ _ hne => supply_put_of_ne hne _⟩

/-- A supply raised within a `u128` total is written. -/
theorem checkedIncreaseTokenSupply_of_le {total s amount : Nat}
    (hmeta : db.metadata c t = some ⟨some total⟩) (hs : db.data (.circulatingSupply c t) = some s)
    (hle : s + amount ≤ total) (htotal : total < 2 ^ 128) :
    db.checkedIncreaseTokenSupply c t amount = ok (db.put (.circulatingSupply c t) (s + amount)) := by
  simp only [checkedIncreaseTokenSupply, loadFt, hmeta, ofExcept_ok, ok_bind, hs, expect_some,
    checkedAdd_of_lt (show s + amount < 2 ^ 128 by omega), ofOption_some]
  rw [if_neg (by omega)]

end TokenDatabase

/-- Conservation, for every token of every contract: a token's balances are
stored for finitely many principals; a token not yet defined has none; a
defined token's name is used in its contract; and a token with a total supply
has its supply stored, at most the total, and equal to the sum of its balances,
the total being a `u128`. -/
structure Conserved (st : TokenState) : Prop where
  finite : ∀ c t, (Function.support (st.database.balanceOf c t)).Finite
  undefined : ∀ c t, st.database.metadata c t = none → st.database.balanceOf c t = 0
  named : ∀ c t, st.database.metadata c t ≠ none → t ∈ st.persistedNames c
  supply : ∀ c t total, st.database.metadata c t = some ⟨some total⟩ →
    ∃ s, st.database.data (.circulatingSupply c t) = some s ∧ s ≤ total ∧
      ∑ᶠ p, st.database.balanceOf c t p = s
  total_lt : ∀ c t total, st.database.metadata c t = some ⟨some total⟩ → total < 2 ^ 128

theorem balanceOf_empty (c : QualifiedContractIdentifier) (t : ClarityName) :
    TokenDatabase.empty.balanceOf c t = 0 := by
  funext p
  rfl

theorem conserved_empty : Conserved TokenState.empty where
  finite c t := by
    rw [TokenState.empty, balanceOf_empty, Function.support_zero]
    exact Set.finite_empty
  undefined c t _ := balanceOf_empty c t
  named _ _ h := absurd rfl h
  supply _ _ _ h := by cases h
  total_lt _ _ _ h := by cases h

/-- The frame of an operation on one defined token: if it keeps the metadata,
the names and every other token, and the token's own balances stay finitely
many and add up to its supply, the invariant is kept. -/
theorem Conserved.of_token {st st' : TokenState} (hc : Conserved st)
    {c : QualifiedContractIdentifier} {t : ClarityName}
    (hnames : st'.persistedNames = st.persistedNames)
    (hmeta : st'.database.metadata = st.database.metadata) (hdefined : st.database.metadata c t ≠ none)
    (hbal : ∀ c' t', (c', t') ≠ (c, t) → st'.database.balanceOf c' t' = st.database.balanceOf c' t')
    (hsup : ∀ c' t', (c', t') ≠ (c, t) →
      st'.database.data (.circulatingSupply c' t') = st.database.data (.circulatingSupply c' t'))
    (hfinite : (Function.support (st'.database.balanceOf c t)).Finite)
    (htoken : ∀ total, st.database.metadata c t = some ⟨some total⟩ →
      ∃ s, st'.database.data (.circulatingSupply c t) = some s ∧ s ≤ total ∧
        ∑ᶠ p, st'.database.balanceOf c t p = s) :
    Conserved st' where
  finite c' t' := by
    by_cases h : (c', t') = (c, t)
    · obtain ⟨rfl, rfl⟩ := Prod.mk.inj h
      exact hfinite
    · rw [hbal c' t' h]
      exact hc.finite c' t'
  undefined c' t' hnone := by
    rw [hmeta] at hnone
    have h : (c', t') ≠ (c, t) := by
      rintro ⟨⟩
      exact hdefined hnone
    rw [hbal c' t' h]
    exact hc.undefined c' t' hnone
  named c' t' hsome := by
    rw [hnames]
    rw [hmeta] at hsome
    exact hc.named c' t' hsome
  supply c' t' total hmeta' := by
    rw [hmeta] at hmeta'
    by_cases h : (c', t') = (c, t)
    · obtain ⟨rfl, rfl⟩ := Prod.mk.inj h
      exact htoken total hmeta'
    · rw [hbal c' t' h, hsup c' t' h]
      exact hc.supply c' t' total hmeta'
  total_lt c' t' total hmeta' := by
    rw [hmeta] at hmeta'
    exact hc.total_lt c' t' total hmeta'

section Steps

open TokenDatabase FinsumUpdate

variable {st : TokenState} {c : QualifiedContractIdentifier} {t : ClarityName}

/-- `define-fungible-token` keeps the invariant: the name check refuses a token
that is already defined, and a new token starts with no balances and a supply
of 0. -/
theorem Conserved.define (hc : Conserved st) {name : ClarityName} {ts : Option Value}
    {st' : TokenState} (h : defineFungibleToken st c name ts = ok st') : Conserved st' := by
  unfold defineFungibleToken at h
  split at h
  · cases h
  rename_i hfresh
  obtain ⟨tsNat, hts, h⟩ := bind_eq_ok.mp h
  cases h
  have hnone : st.database.metadata c name = none := by
    by_contra hsome
    exact hfresh (hc.named c name hsome)
  constructor
  · intro c' t'
    rw [balanceOf_createFungibleToken]
    exact hc.finite c' t'
  · intro c' t' h'
    rw [metadata_createFungibleToken] at h'
    split at h'
    · cases h'
    · rw [balanceOf_createFungibleToken]
      exact hc.undefined c' t' h'
  · intro c' t' h'
    rw [metadata_createFungibleToken] at h'
    by_cases hc' : c' = c
    · subst hc'
      simp only [Function.update_self, List.mem_cons]
      by_cases ht' : t' = name
      · exact .inl ht'
      · simp only [ht', and_false, if_false] at h'
        exact .inr (hc.named c' t' h')
    · simp only [hc', false_and, if_false] at h'
      dsimp only
      rw [Function.update_of_ne hc']
      exact hc.named c' t' h'
  · intro c' t' total h'
    rw [metadata_createFungibleToken] at h'
    by_cases hkey : (c', t') = (c, name)
    -- the new token: supply 0, and no balances since it was not defined
    · obtain ⟨rfl, rfl⟩ := Prod.mk.inj hkey
      simp only [and_self, if_true, Option.some.injEq, FungibleTokenMetadata.mk.injEq] at h'
      subst h'
      refine ⟨0, ?_, Nat.zero_le _, ?_⟩
      · simp [createFungibleToken, put]
      · rw [balanceOf_createFungibleToken, hc.undefined c' t' hnone]
        exact finsum_zero
    · have hne : ¬ (c' = c ∧ t' = name) := fun h => hkey (Prod.ext h.1 h.2)
      rw [if_neg hne] at h'
      rw [balanceOf_createFungibleToken, supply_createFungibleToken_of_ne hkey]
      exact hc.supply c' t' total h'
  · intro c' t' total h'
    rw [metadata_createFungibleToken] at h'
    split at h'
    -- the new token's total is the `uint` it was defined with
    · simp only [Option.some.injEq, FungibleTokenMetadata.mk.injEq] at h'
      subst h'
      exact lt_of_totalSupplyOf hts
    · exact hc.total_lt c' t' total h'

/-- `ft-mint?` keeps the invariant: the recipient's balance and the supply rise
together. -/
theorem Conserved.mint (hc : Conserved st) {amount toValue v : Value} {db' : TokenDatabase}
    (h : specialMintToken st.database c t amount toValue = ok (v, db')) :
    Conserved { st with database := db' } := by
  rcases specialMintToken_eq_ok h with ⟨-, rfl⟩ | ⟨a, q, db₁, -, -, -, hinc, -, rfl⟩
  · exact hc
  obtain ⟨md, hmeta, hcase⟩ := checkedIncreaseTokenSupply_eq_ok hinc
  obtain ⟨hmeta₁, hbal₁, hsup₁⟩ := checkedIncreaseTokenSupply_frame hinc
  have hbal : (db₁.setFtBalance c t q (db₁.balanceOf c t q + a.toNat)).balanceOf c t =
      Function.update (st.database.balanceOf c t) q (st.database.balanceOf c t q + a.toNat) := by
    rw [balanceOf_setFtBalance, hbal₁]
  refine hc.of_token (c := c) (t := t) rfl hmeta₁ (by simp [hmeta]) (fun c' t' hne => ?_) (fun c' t' hne => ?_) ?_ ?_
  · rw [balanceOf_setFtBalance_of_ne hne, hbal₁]
  · rw [supply_setFtBalance, hsup₁ c' t' hne]
  · rw [hbal]
    exact support_update_finite (hc.finite c t) q _
  -- the token's own supply: raised by the amount, within the total
  · intro total htotal
    rw [hmeta, Option.some.injEq] at htotal
    subst htotal
    obtain ⟨s, hs, hle, -, rfl⟩ := hcase
    obtain ⟨s', hs', -, hsum⟩ := hc.supply c t total hmeta
    rw [hs, Option.some.injEq] at hs'
    subst hs'
    refine ⟨s + a.toNat, by simp [setFtBalance, put], hle, ?_⟩
    rw [hbal, finsum_update_add_self (hc.finite c t), hsum]

/-- `ft-transfer?` keeps the invariant: the amount moves between two principals. -/
theorem Conserved.transfer (hc : Conserved st) {amount fromValue toValue v : Value}
    {db' : TokenDatabase} (h : specialTransferToken st.database c t amount fromValue toValue = ok (v, db')) :
    Conserved { st with database := db' } := by
  rcases specialTransferToken_eq_ok h with rfl | ⟨a, p, q, -, -, -, hpq, -, ⟨md, hmeta⟩, hle, -, rfl⟩
  · exact hc
  have hbal : ((st.database.setFtBalance c t p (st.database.balanceOf c t p - a.toNat)).setFtBalance
      c t q (st.database.balanceOf c t q + a.toNat)).balanceOf c t =
      Function.update (Function.update (st.database.balanceOf c t) p
        (st.database.balanceOf c t p - a.toNat)) q (st.database.balanceOf c t q + a.toNat) := by
    rw [balanceOf_setFtBalance, balanceOf_setFtBalance]
  refine hc.of_token (c := c) (t := t) rfl rfl (by simp [hmeta]) (fun c' t' hne => ?_) (fun c' t' _ => ?_) ?_ ?_
  · rw [balanceOf_setFtBalance_of_ne hne, balanceOf_setFtBalance_of_ne hne]
  · rw [supply_setFtBalance, supply_setFtBalance]
  · rw [hbal]
    exact support_update_finite (support_update_finite (hc.finite c t) p _) q _
  · intro total htotal
    obtain ⟨s, hs, hle', hsum⟩ := hc.supply c t total htotal
    refine ⟨s, by rw [supply_setFtBalance, supply_setFtBalance, hs], hle', ?_⟩
    rw [hbal, finsum_move (hc.finite c t) hpq hle, hsum]

theorem Conserved.exec (hc : Conserved st) {op : TokenOp} {st' : TokenState}
    (h : op.exec st = ok st') : Conserved st' := by
  cases op with
  | define c name totalSupply => exact hc.define h
  | ftMint c tokenName amount toValue =>
    obtain ⟨⟨v, db'⟩, hmint, h⟩ := bind_eq_ok.mp h
    cases h
    exact hc.mint hmint
  | ftTransfer c tokenName amount fromValue toValue =>
    obtain ⟨⟨v, db'⟩, htransfer, h⟩ := bind_eq_ok.mp h
    cases h
    exact hc.transfer htransfer

/-- A transaction that succeeds as a whole keeps the invariant. -/
theorem Conserved.foldlM_exec {ops : List TokenOp} :
    ∀ {st st' : TokenState}, Conserved st → ops.foldlM TokenOp.exec st = ok st' → Conserved st' := by
  induction ops with
  | nil =>
    intro st st' hc h
    cases h
    exact hc
  | cons op ops ih =>
    intro st st' hc h
    rw [List.foldlM_cons] at h
    obtain ⟨mid, hop, hrest⟩ := bind_eq_ok.mp h
    exact ih (hc.exec hop) hrest

theorem Committed.conserved {st : TokenState} (h : Committed st) : Conserved st := by
  induction h with
  | empty => exact conserved_empty
  | commit ops _ hops ih => exact ih.foldlM_exec hops

/-- `ft-transfer?` leaves the sum of the token's balances as it was. -/
theorem finsum_balanceOf_transfer (hc : Conserved st) {amount fromValue toValue v : Value}
    {db' : TokenDatabase} (h : specialTransferToken st.database c t amount fromValue toValue = ok (v, db')) :
    ∑ᶠ p, db'.balanceOf c t p = ∑ᶠ p, st.database.balanceOf c t p := by
  rcases specialTransferToken_eq_ok h with rfl | ⟨a, p, q, -, -, -, hpq, -, -, hle, -, rfl⟩
  · rfl
  rw [balanceOf_setFtBalance, balanceOf_setFtBalance, finsum_move (hc.finite c t) hpq hle]

/-- `ft-mint?` that returns `(ok true)` raises the sum of the token's balances by the
amount. -/
theorem finsum_balanceOf_mint (hc : Conserved st) {a : BitVec 128} {toValue : Value}
    {db' : TokenDatabase} (h : specialMintToken st.database c t (.uInt a) toValue = ok (Value.okayTrue, db')) :
    ∑ᶠ p, db'.balanceOf c t p = ∑ᶠ p, st.database.balanceOf c t p + a.toNat := by
  rcases specialMintToken_eq_ok h with ⟨hv, -⟩ | ⟨a', q, db₁, ha, -, -, hinc, -, rfl⟩
  -- the error code is not `(ok true)`
  · cases hv
  cases ha
  obtain ⟨-, hbal₁, -⟩ := checkedIncreaseTokenSupply_frame hinc
  rw [balanceOf_setFtBalance, hbal₁, finsum_update_add_self (hc.finite c t)]

/-- An `ft-mint?` of a positive amount that keeps the supply within the total
returns `(ok true)` and raises the supply by the amount: the recipient's
balance, at most the supply, cannot overflow either. -/
theorem Conserved.specialMintToken_of_le (hc : Conserved st) {total s : Nat} {a : BitVec 128}
    (q : PrincipalData) (hmeta : st.database.metadata c t = some ⟨some total⟩)
    (hs : st.database.data (.circulatingSupply c t) = some s) (ha : 0 < a.toNat)
    (hle : s + a.toNat ≤ total) :
    ∃ db', specialMintToken st.database c t (.uInt a) (.principal q) = ok (Value.okayTrue, db') ∧
      db'.data (.circulatingSupply c t) = some (s + a.toNat) := by
  have htotal := hc.total_lt c t total hmeta
  obtain ⟨s', hs', -, hsum⟩ := hc.supply c t total hmeta
  rw [hs, Option.some.injEq] at hs'
  subst hs'
  -- one balance is at most the sum of them all, which is the supply
  have hbal : st.database.balanceOf c t q ≤ s := by
    rw [← hsum]
    exact single_le_finsum q (hc.finite c t) fun _ => Nat.zero_le _
  have hinc := checkedIncreaseTokenSupply_of_le hmeta hs hle htotal
  have hmeta₁ : (st.database.put (.circulatingSupply c t) (s + a.toNat)).metadata c t =
      some ⟨some total⟩ := hmeta
  have hget : (st.database.put (.circulatingSupply c t) (s + a.toNat)).getFtBalance c t q =
      .ok (st.database.balanceOf c t q) := by
    rw [getFtBalance_eq hmeta₁, balanceOf_put_supply]
  refine ⟨(st.database.put (.circulatingSupply c t) (s + a.toNat)).setFtBalance c t q
    (st.database.balanceOf c t q + a.toNat), ?_, ?_⟩
  · simp only [specialMintToken, if_neg (show ¬ a.toNat ≤ 0 by omega), hinc, ok_bind, hget, ofExcept_ok,
      checkedAdd_of_lt (show st.database.balanceOf c t q + a.toNat < 2 ^ 128 by omega), ofOption_some]
  · simp [put]

end Steps

/-- Supply conservation: in every state committed transactions reach, a token with
a total supply has its circulating supply stored, within the total and equal to
the sum of its balances over all principals; `ft-transfer?` keeps that sum and
`ft-mint?` raises it by exactly the amount minted, which every mint of a positive
amount within the total does. -/
theorem ftSupply_conserved {st : TokenState} (hst : Committed st) (c : QualifiedContractIdentifier)
    (t : ClarityName) :
    (∀ total, st.database.metadata c t = some ⟨some total⟩ →
      ∃ s, st.database.data (.circulatingSupply c t) = some s ∧ s ≤ total ∧
        ∑ᶠ p, st.database.balanceOf c t p = s) ∧
    (∀ amount fromValue toValue v db',
      specialTransferToken st.database c t amount fromValue toValue = ok (v, db') →
        ∑ᶠ p, db'.balanceOf c t p = ∑ᶠ p, st.database.balanceOf c t p) ∧
    (∀ a toValue db', specialMintToken st.database c t (.uInt a) toValue = ok (Value.okayTrue, db') →
      ∑ᶠ p, db'.balanceOf c t p = ∑ᶠ p, st.database.balanceOf c t p + a.toNat) ∧
    (∀ total s (a : BitVec 128) q, st.database.metadata c t = some ⟨some total⟩ →
      st.database.data (.circulatingSupply c t) = some s → 0 < a.toNat → s + a.toNat ≤ total →
      ∃ db', specialMintToken st.database c t (.uInt a) (.principal q) = ok (Value.okayTrue, db') ∧
        db'.data (.circulatingSupply c t) = some (s + a.toNat)) := by
  have hc := hst.conserved
  exact ⟨hc.supply c t, fun _ _ _ _ _ h => finsum_balanceOf_transfer hc h,
    fun _ _ _ h => finsum_balanceOf_mint hc h,
    fun _ _ _ q hmeta hs ha hle => hc.specialMintToken_of_le q hmeta hs ha hle⟩

/-- The contract of the witness: `a`, deployed by the transient principal. -/
def sampleContract : QualifiedContractIdentifier :=
  ⟨.transient, ⟨[97], by decide⟩⟩

/-- The token of the witness, `t`. -/
def sampleToken : ClarityName := ⟨[116], by decide⟩

/-- The state after one transaction: `(define-fungible-token t u100)` in
`sampleContract`. -/
def definedTokenState : TokenState where
  database := TokenDatabase.empty.createFungibleToken sampleContract sampleToken (some 100)
  persistedNames := Function.update (fun _ => []) sampleContract [sampleToken]

theorem ftSupply_conserved_defined :
    Committed definedTokenState ∧
    ((∀ total, definedTokenState.database.metadata sampleContract sampleToken = some ⟨some total⟩ →
      ∃ s, definedTokenState.database.data (.circulatingSupply sampleContract sampleToken) = some s ∧
        s ≤ total ∧ ∑ᶠ p, definedTokenState.database.balanceOf sampleContract sampleToken p = s) ∧
    (∀ amount fromValue toValue v db',
      specialTransferToken definedTokenState.database sampleContract sampleToken amount fromValue toValue =
          ok (v, db') →
        ∑ᶠ p, db'.balanceOf sampleContract sampleToken p =
          ∑ᶠ p, definedTokenState.database.balanceOf sampleContract sampleToken p) ∧
    (∀ a toValue db', specialMintToken definedTokenState.database sampleContract sampleToken (.uInt a)
        toValue = ok (Value.okayTrue, db') →
      ∑ᶠ p, db'.balanceOf sampleContract sampleToken p =
        ∑ᶠ p, definedTokenState.database.balanceOf sampleContract sampleToken p + a.toNat) ∧
    (∀ total s (a : BitVec 128) q, definedTokenState.database.metadata sampleContract sampleToken =
        some ⟨some total⟩ →
      definedTokenState.database.data (.circulatingSupply sampleContract sampleToken) = some s →
      0 < a.toNat → s + a.toNat ≤ total →
      ∃ db', specialMintToken definedTokenState.database sampleContract sampleToken (.uInt a) (.principal q) =
          ok (Value.okayTrue, db') ∧
        db'.data (.circulatingSupply sampleContract sampleToken) = some (s + a.toNat))) :=
  have hst : Committed definedTokenState :=
    .commit [.define sampleContract sampleToken (some (.uInt 100))] .empty rfl
  ⟨hst, ftSupply_conserved hst sampleContract sampleToken⟩

end BlockstackCore
