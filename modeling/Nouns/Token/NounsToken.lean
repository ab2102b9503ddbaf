import Nouns.Lib.CallMachine
import Nouns.Token.Checkpointable

/-!
# The Nouns token

`NounsToken.sol`, its public entry points, and the token as a machine: anyone may
call it at any time, and `safeTransferFrom` hands control to the recipient before
it returns.
-/

namespace Nouns

open Evm CallMachine

namespace NounsToken

/-- `isApprovedForAll`, which whitelists the owner's OpenSea proxy. -/
def isApprovedForAll (v : View) (s : NounsToken) (owner operator : Address) : Bool :=
  if v.proxies owner = operator then true else s.operatorApprovals_ owner operator

/-- `_mintTo` -/
def mintTo_ (m : Msg) (dst : Address) (nounId : Nat) (s : NounsToken) : Result NounsToken := do
  let seed ← m.view.generateSeed s.seeder nounId s.descriptor
  let s := { s with seeds := Function.update s.seeds nounId seed }
  let s ← mint_ (beforeTokenTransfer_ m.block) s.owner dst nounId s
  return s.emit (.nounCreated nounId seed)

/-- `_currentNounId++` -/
def nextNounId (s : NounsToken) : Result NounsToken := do
  let n ← add 256 s.currentNounId_ 1
  return { s with currentNounId_ := n }

/-- The nounders' reward, every tenth Noun until id 1820. -/
def mintReward (m : Msg) (s : NounsToken) : Result NounsToken :=
  if s.currentNounId_ ≤ 1820 ∧ s.currentNounId_ % 10 = 0 then do
    let nounId := s.currentNounId_
    let s ← s.nextNounId
    s.mintTo_ m s.noundersDAO nounId
  else .ok s

/-- `mint`, with the id it returns. -/
def mint (m : Msg) (s : NounsToken) : Result (NounsToken × Nat) := do
  require (m.sender = s.minter) "Sender is not the minter"
  let s ← s.mintReward m
  let nounId := s.currentNounId_
  let s ← s.nextNounId
  let s ← s.mintTo_ m s.minter nounId
  return (s, nounId)

/-- `burn` -/
def burn (m : Msg) (nounId : Nat) (s : NounsToken) : Result NounsToken := do
  require (m.sender = s.minter) "Sender is not the minter"
  let s ← burn_ (beforeTokenTransfer_ m.block) nounId s
  return s.emit (.nounBurned nounId)

/-- `approve` -/
def approve (m : Msg) (dst : Address) (tokenId : Nat) (s : NounsToken) : Result NounsToken :=
  erc721Approve (isApprovedForAll m.view) m.sender dst tokenId s

/-- `transferFrom`, and what `safeTransferFrom` does before it asks the recipient. -/
def transferFrom (m : Msg) (src dst : Address) (tokenId : Nat) (s : NounsToken) :
    Result NounsToken := do
  let allowed ← isApprovedOrOwner_ (isApprovedForAll m.view) s m.sender tokenId
  require allowed "ERC721: transfer caller is not owner nor approved"
  transfer_ (beforeTokenTransfer_ m.block) src dst tokenId s

/-- `onlyNoundersDAO setNoundersDAO` -/
def setNoundersDAO (m : Msg) (noundersDAO : Address) (s : NounsToken) : Result NounsToken := do
  require (m.sender = s.noundersDAO) "Sender is not the nounders DAO"
  return { s with noundersDAO := noundersDAO }.emit (.noundersDAOUpdated noundersDAO)

/-- The `onlyOwner` modifier. -/
def onlyOwner (m : Msg) (s : NounsToken) : Result Unit :=
  require (s.owner = m.sender) "Ownable: caller is not the owner"

/-- `onlyOwner whenMinterNotLocked setMinter` -/
def setMinter (m : Msg) (minter : Address) (s : NounsToken) : Result NounsToken := do
  s.onlyOwner m
  require (s.isMinterLocked = false) "Minter is locked"
  return { s with minter := minter }.emit (.minterUpdated minter)

/-- `onlyOwner whenMinterNotLocked lockMinter` -/
def lockMinter (m : Msg) (s : NounsToken) : Result NounsToken := do
  s.onlyOwner m
  require (s.isMinterLocked = false) "Minter is locked"
  return { s with isMinterLocked := true }.emit .minterLocked

/-- `onlyOwner whenDescriptorNotLocked setDescriptor` -/
def setDescriptor (m : Msg) (descriptor : Address) (s : NounsToken) : Result NounsToken := do
  s.onlyOwner m
  require (s.isDescriptorLocked = false) "Descriptor is locked"
  return { s with descriptor := descriptor }.emit (.descriptorUpdated descriptor)

/-- `onlyOwner whenDescriptorNotLocked lockDescriptor` -/
def lockDescriptor (m : Msg) (s : NounsToken) : Result NounsToken := do
  s.onlyOwner m
  require (s.isDescriptorLocked = false) "Descriptor is locked"
  return { s with isDescriptorLocked := true }.emit .descriptorLocked

/-- `onlyOwner whenSeederNotLocked setSeeder` -/
def setSeeder (m : Msg) (seeder : Address) (s : NounsToken) : Result NounsToken := do
  s.onlyOwner m
  require (s.isSeederLocked = false) "Seeder is locked"
  return { s with seeder := seeder }.emit (.seederUpdated seeder)

/-- `onlyOwner whenSeederNotLocked lockSeeder` -/
def lockSeeder (m : Msg) (s : NounsToken) : Result NounsToken := do
  s.onlyOwner m
  require (s.isSeederLocked = false) "Seeder is locked"
  return { s with isSeederLocked := true }.emit .seederLocked

/-- `Ownable._transferOwnership` -/
def transferOwnership_ (newOwner : Address) (s : NounsToken) : NounsToken :=
  { s with owner := newOwner }.emit (.ownershipTransferred s.owner newOwner)

/-- `Ownable.transferOwnership` -/
def transferOwnership (m : Msg) (newOwner : Address) (s : NounsToken) : Result NounsToken := do
  s.onlyOwner m
  require (newOwner ≠ 0) "Ownable: new owner is the zero address"
  return s.transferOwnership_ newOwner

/-- `Ownable.renounceOwnership` -/
def renounceOwnership (m : Msg) (s : NounsToken) : Result NounsToken := do
  s.onlyOwner m
  return s.transferOwnership_ 0

end NounsToken

/-! ## Entry points -/

/-- The state-changing entry points of the token, with their arguments. -/
inductive TokenCall where
  | mint
  | burn (nounId : Nat)
  | approve (dst : Address) (tokenId : Nat)
  | setApprovalForAll (operator : Address) (approved : Bool)
  | transferFrom (src dst : Address) (tokenId : Nat)
  | safeTransferFrom (src dst : Address) (tokenId : Nat)
  | delegate (delegatee : Address)
  | delegateBySig (delegatee : Address) (nonce expiry : Nat) (sig : Signature)
  | setNoundersDAO (noundersDAO : Address)
  | setMinter (minter : Address)
  | lockMinter
  | setDescriptor (descriptor : Address)
  | lockDescriptor
  | setSeeder (seeder : Address)
  | lockSeeder
  | transferOwnership (newOwner : Address)
  | renounceOwnership

/-- What a call does to the token's storage. -/
def NounsToken.call (m : Msg) (s : NounsToken) : TokenCall → Result NounsToken
  | .mint => do
    let (s, _) ← s.mint m
    return s
  | .burn nounId => s.burn m nounId
  | .approve dst tokenId => s.approve m dst tokenId
  | .setApprovalForAll operator approved => s.setApprovalForAll m.sender operator approved
  | .transferFrom src dst tokenId => s.transferFrom m src dst tokenId
  | .safeTransferFrom src dst tokenId => s.transferFrom m src dst tokenId
  | .delegate delegatee => s.delegate m delegatee
  | .delegateBySig delegatee nonce expiry sig => s.delegateBySig m delegatee nonce expiry sig
  | .setNoundersDAO noundersDAO => s.setNoundersDAO m noundersDAO
  | .setMinter minter => s.setMinter m minter
  | .lockMinter => s.lockMinter m
  | .setDescriptor descriptor => s.setDescriptor m descriptor
  | .lockDescriptor => s.lockDescriptor m
  | .setSeeder seeder => s.setSeeder m seeder
  | .lockSeeder => s.lockSeeder m
  | .transferOwnership newOwner => s.transferOwnership m newOwner
  | .renounceOwnership => s.renounceOwnership m

/--
Whether a call ends by asking the recipient: `_checkOnERC721Received` calls a
recipient that is a contract, and reverts unless it answers with the selector.
-/
def TokenCall.asksRecipient (v : View) : TokenCall → Bool
  | .safeTransferFrom _ dst _ => v.isContract dst
  | _ => false

/-! ## The token on its own -/

/-- The token and the block the chain is at. -/
structure TokenWorld where
  token : NounsToken
  block : Block

/-- A transaction, or a call made from inside one. -/
structure TokenTx where
  sender : Address
  view : View
  call : TokenCall

/-- The one outgoing call of the token that can come back. -/
inductive TokenFrame where
  | onERC721Received
deriving DecidableEq

/-- The context a transaction runs in. -/
def TokenTx.msg (tx : TokenTx) (block : Block) : Msg := ⟨tx.sender, block, tx.view⟩

/-- The token as a machine. No transaction comes from the zero address. -/
def tokenMachine : Machine TokenWorld TokenTx TokenFrame Block Revert where
  enter tx w := do
    let s ← w.token.call (tx.msg w.block) tx.call
    let w' := { w with token := s }
    if tx.call.asksRecipient tx.view then .ok (.call w' w' .onERC721Received)
    else .ok (.done w')
  resume _ ok w := do
    require ok "ERC721: transfer to non ERC721Receiver implementer"
    return .done w
  allowed tx _ _ := tx.sender ≠ 0
  tick next w := (w.block.tick next).map (fun b => { w with block := b })

instance (tx : TokenTx) (w : TokenWorld) (fs : List TokenFrame) :
    Decidable (tokenMachine.allowed tx w fs) :=
  inferInstanceAs (Decidable (tx.sender ≠ 0))

/-- The token's storage at deployment. -/
structure Genesis where
  owner : Address
  noundersDAO : Address
  minter : Address
  descriptor : Address
  seeder : Address
  block : Block
  /-- The genesis block of a chain holds no transactions. -/
  block_pos : 0 < block.number

/-- The world right after the token's deployment. -/
def Genesis.world (g : Genesis) : TokenWorld :=
  ⟨.deploy g.owner g.noundersDAO g.minter g.descriptor g.seeder, g.block⟩

end Nouns
