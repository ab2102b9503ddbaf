import Nouns.Evm.Basic

/-!
# Storage of the Nouns token

`NounsToken` inherits from `ERC721Checkpointable`, `ERC721Enumerable` and `ERC721`;
its storage is theirs, one record. Mappings are functions with the zero value
everywhere they were never written. The log entries of every call are kept in
order in `logs`, which the contract itself never reads.
-/

namespace Nouns

open Evm

/-- `INounsSeeder.Seed` -/
structure Seed where
  background : Nat
  body : Nat
  accessory : Nat
  head : Nat
  glasses : Nat
deriving DecidableEq, Inhabited

/-- A checkpoint for marking number of votes from a given block. -/
structure Checkpoint where
  fromBlock : Nat
  votes : Nat
deriving DecidableEq, Inhabited

/-- The events of `NounsToken` and of the contracts it inherits from. -/
inductive TokenEvent where
  | transfer (src dst : Address) (tokenId : Nat)
  | approval (owner approved : Address) (tokenId : Nat)
  | approvalForAll (owner operator : Address) (approved : Bool)
  | delegateChanged (delegator fromDelegate toDelegate : Address)
  | delegateVotesChanged (delegate : Address) (previousBalance newBalance : Nat)
  | nounCreated (tokenId : Nat) (seed : Seed)
  | nounBurned (tokenId : Nat)
  | noundersDAOUpdated (noundersDAO : Address)
  | minterUpdated (minter : Address)
  | minterLocked
  | descriptorUpdated (descriptor : Address)
  | descriptorLocked
  | seederUpdated (seeder : Address)
  | seederLocked
  | ownershipTransferred (previousOwner newOwner : Address)
deriving DecidableEq

/-- The storage of `NounsToken.sol`. -/
structure NounsToken where
  -- ERC721
  owners_ : Nat → Address
  balances_ : Address → Nat
  tokenApprovals_ : Nat → Address
  operatorApprovals_ : Address → Address → Bool
  -- ERC721Enumerable
  ownedTokens_ : Address → Nat → Nat
  ownedTokensIndex_ : Nat → Nat
  allTokens_ : List Nat
  allTokensIndex_ : Nat → Nat
  -- ERC721Checkpointable
  delegates_ : Address → Address
  checkpoints : Address → Nat → Checkpoint
  numCheckpoints : Address → Nat
  nonces : Address → Nat
  -- Ownable
  owner : Address
  -- NounsToken
  noundersDAO : Address
  minter : Address
  descriptor : Address
  seeder : Address
  isMinterLocked : Bool
  isDescriptorLocked : Bool
  isSeederLocked : Bool
  seeds : Nat → Seed
  currentNounId_ : Nat
  logs : List TokenEvent

/-- The signed message of `delegateBySig`. -/
structure Delegation where
  delegatee : Address
  nonce : Nat
  expiry : Nat
deriving DecidableEq

/-- An ECDSA signature. -/
structure Signature where
  v : Nat
  r : Nat
  s : Nat
deriving DecidableEq

/--
What a call to the token reads outside its own storage: the seeder
(`generateSeed(nounId, descriptor)` at a seeder address), OpenSea's proxy registry,
`Address.isContract`, and the account whose key signed a delegation, which is
`ecrecover` on the EIP-712 digest of the message.
-/
structure View where
  generateSeed : Address → Nat → Address → Result Seed
  proxies : Address → Address
  isContract : Address → Bool
  recover : Delegation → Signature → Address

/-- The context of a call: `msg.sender`, the block, and what is read outside. -/
structure Msg where
  sender : Address
  block : Block
  view : View

namespace NounsToken

/-- `emit e` -/
def emit (e : TokenEvent) (s : NounsToken) : NounsToken := { s with logs := s.logs ++ [e] }

/-- The storage after `constructor(noundersDAO, minter, descriptor, seeder, _)`, sent by `owner`. -/
def deploy (owner noundersDAO minter descriptor seeder : Address) : NounsToken where
  owners_ := fun _ => 0
  balances_ := fun _ => 0
  tokenApprovals_ := fun _ => 0
  operatorApprovals_ := fun _ _ => false
  ownedTokens_ := fun _ _ => 0
  ownedTokensIndex_ := fun _ => 0
  allTokens_ := []
  allTokensIndex_ := fun _ => 0
  delegates_ := fun _ => 0
  checkpoints := fun _ _ => ⟨0, 0⟩
  numCheckpoints := fun _ => 0
  nonces := fun _ => 0
  owner := owner
  noundersDAO := noundersDAO
  minter := minter
  descriptor := descriptor
  seeder := seeder
  isMinterLocked := false
  isDescriptorLocked := false
  isSeederLocked := false
  seeds := fun _ => ⟨0, 0, 0, 0, 0⟩
  currentNounId_ := 0
  logs := [.ownershipTransferred 0 owner]

end NounsToken

end Nouns
