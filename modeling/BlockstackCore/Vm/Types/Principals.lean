import BlockstackCore.Vm.Representations

/-!
# Principals

`StandardPrincipalData(u8, [u8; 20])` is a version byte and a 20-byte hash; a
contract principal adds a contract name to its issuer (`vm/types/mod.rs`).
-/

namespace BlockstackCore

structure StandardPrincipalData where
  version : UInt8
  bytes : List UInt8
  length_bytes : bytes.length = 20
  deriving DecidableEq, Hashable, Repr

/-- `StandardPrincipalData::transient()`. -/
def StandardPrincipalData.transient : StandardPrincipalData := ⟨1, List.replicate 20 1, rfl⟩

structure QualifiedContractIdentifier where
  issuer : StandardPrincipalData
  name : ContractName
  deriving DecidableEq, Hashable, Repr

inductive PrincipalData where
  | standard (p : StandardPrincipalData)
  | contract (id : QualifiedContractIdentifier)
  deriving DecidableEq, Hashable, Repr

structure TraitIdentifier where
  name : ClarityName
  contractIdentifier : QualifiedContractIdentifier
  deriving DecidableEq, Hashable, Repr

end BlockstackCore
