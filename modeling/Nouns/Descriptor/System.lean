import Nouns.Descriptor.NounsDescriptor
import Nouns.Token.NounsToken

/-!
# The token, its seeder and its descriptor together

One world with the token and the descriptor; the seeder keeps nothing. When the token asks
for a seed, the answer is drawn by the seeder's code from the parts the descriptor has at
that moment, if the addresses the token keeps are theirs.
-/

namespace Nouns

open Evm CallMachine

/-- What does not change: the addresses of the contracts, Keccak, and the hashes of the blocks. -/
structure ArtEnv where
  seeder : Address
  descriptor : Address
  keccak256 : List UInt8 → Bytes32
  blockhash : Nat → Bytes32

/-- The token, the descriptor and the block. -/
structure ArtWorld where
  token : NounsToken
  descriptor : NounsDescriptor
  block : Block

/-- Where seeds are drawn from. -/
def ArtWorld.source (env : ArtEnv) (w : ArtWorld) : SeedSource where
  keccak256 := env.keccak256
  blockhash := env.blockhash
  isSeeder a := a = env.seeder
  parts a := if a = env.descriptor then some w.descriptor.counts else none

/-- The state-changing entry points of the two contracts; a call of the token brings the rest of
what the token reads. -/
inductive ArtCall where
  | token (view : View) (call : TokenCall)
  | descriptor (call : DescriptorCall)

/-- A transaction, or a call made from inside one. -/
structure ArtTx where
  sender : Address
  call : ArtCall

/-- The context the token runs in. -/
def ArtWorld.msg (env : ArtEnv) (sender : Address) (view : View) (w : ArtWorld) : Msg :=
  ⟨sender, w.block, { view with generateSeed := (w.source env).generateSeed w.block }⟩

/-- The entry points of the two contracts. -/
def ArtWorld.enter (env : ArtEnv) (tx : ArtTx) (w : ArtWorld) :
    Result (Outcome ArtWorld TokenFrame) :=
  match tx.call with
  | .token view call => do
      let token ← w.token.call (w.msg env tx.sender view) call
      let w := { w with token := token }
      if call.asksRecipient view then .ok (.call w w .onERC721Received) else .ok (.done w)
  | .descriptor call => do
      let descriptor ← w.descriptor.call tx.sender call
      return .done { w with descriptor := descriptor }

/-- The contracts as a machine. No transaction comes from the zero address. -/
def artMachine (env : ArtEnv) : Machine ArtWorld ArtTx TokenFrame Block Revert where
  enter := ArtWorld.enter env
  resume _ ok w := do
    require ok "ERC721: transfer to non ERC721Receiver implementer"
    return .done w
  allowed tx _ _ := tx.sender ≠ 0
  tick next w := (w.block.tick next).map (fun b => { w with block := b })

instance (env : ArtEnv) (tx : ArtTx) (w : ArtWorld) (fs : List TokenFrame) :
    Decidable ((artMachine env).allowed tx w fs) :=
  inferInstanceAs (Decidable (tx.sender ≠ 0))

/-- The deployment of the token, with a descriptor that may have a past. -/
structure ArtDeployment (env : ArtEnv) where
  genesis : Genesis
  descriptor : NounsDescriptor
  descriptor_eq : genesis.descriptor = env.descriptor
  seeder_eq : genesis.seeder = env.seeder
  descriptor_called : ∃ owner, Relation.ReflTransGen
    (fun s s' => ∃ sender call, NounsDescriptor.call sender s call = .ok s')
    (.deploy owner) descriptor

/-- The world right after the token's deployment. -/
def ArtDeployment.world {env : ArtEnv} (d : ArtDeployment env) : ArtWorld :=
  ⟨d.genesis.world.token, d.descriptor, d.genesis.block⟩

/-- `NounsToken.tokenURI`, with the descriptor's answer to a token id and a seed -/
def NounsToken.tokenURI (descriptorTokenURI : Nat → Seed → Result String) (tokenId : Nat)
    (s : NounsToken) : Result String := do
  require (s.exists_ tokenId) "NounsToken: URI query for nonexistent token"
  descriptorTokenURI tokenId (s.seeds tokenId)

/-- `NounsToken.dataURI`, likewise -/
def NounsToken.dataURI (descriptorDataURI : Nat → Seed → Result String) (tokenId : Nat)
    (s : NounsToken) : Result String := do
  require (s.exists_ tokenId) "NounsToken: URI query for nonexistent token"
  descriptorDataURI tokenId (s.seeds tokenId)

section
variable (base64 : String → String) (tokenId : Nat) (w : ArtWorld)

/-- `NounsToken.tokenURI`, of a token that keeps the address of this descriptor -/
def ArtWorld.tokenURI : Result String :=
  w.token.tokenURI (fun tokenId seed => w.descriptor.tokenURI base64 tokenId seed) tokenId

/-- `NounsToken.dataURI`, likewise -/
def ArtWorld.dataURI : Result String :=
  w.token.dataURI (fun tokenId seed => w.descriptor.dataURI base64 tokenId seed) tokenId

end

end Nouns
