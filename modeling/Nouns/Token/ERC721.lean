import Nouns.Token.Storage

/-!
# ERC721 and its enumerable extension

`base/ERC721.sol` and `base/ERC721Enumerable.sol`. The virtual functions that
`NounsToken` overrides, `_beforeTokenTransfer` and `isApprovedForAll`, are
parameters here and are supplied by the contract that overrides them.
-/

namespace Nouns

open Evm

namespace NounsToken

/-! ## ERC721Enumerable -/

/-- `require(owner != address(0)); return _balances[owner]` -/
def balanceOf (s : NounsToken) (owner : Address) : Result Nat := do
  require (owner ≠ 0) "ERC721: balance query for the zero address"
  return s.balances_ owner

/-- `_allTokens.length` -/
def totalSupply (s : NounsToken) : Nat := s.allTokens_.length

/-- `tokenOfOwnerByIndex` -/
def tokenOfOwnerByIndex (s : NounsToken) (owner : Address) (i : Nat) : Result Nat := do
  let balance ← s.balanceOf owner
  require (i < balance) "ERC721Enumerable: owner index out of bounds"
  return s.ownedTokens_ owner i

/-- `tokenByIndex` -/
def tokenByIndex (s : NounsToken) (i : Nat) : Result Nat := do
  require (i < s.totalSupply) "ERC721Enumerable: global index out of bounds"
  index s.allTokens_ i

/-- `_addTokenToOwnerEnumeration` -/
def addTokenToOwnerEnumeration_ (dst : Address) (tokenId : Nat) (s : NounsToken) :
    Result NounsToken := do
  let length ← s.balanceOf dst
  return { s with
    ownedTokensIndex_ := Function.update s.ownedTokensIndex_ tokenId length
    ownedTokens_ := Function.update s.ownedTokens_ dst
      (Function.update (s.ownedTokens_ dst) length tokenId) }

/-- `_addTokenToAllTokensEnumeration` -/
def addTokenToAllTokensEnumeration_ (tokenId : Nat) (s : NounsToken) : NounsToken :=
  { s with
    allTokensIndex_ := Function.update s.allTokensIndex_ tokenId s.allTokens_.length
    allTokens_ := s.allTokens_ ++ [tokenId] }

/-- The swap of `_removeTokenFromOwnerEnumeration`, when the token is not the last one. -/
def swapOwnedTokens_ (src : Address) (tokenIndex lastTokenIndex : Nat) (s : NounsToken) :
    NounsToken :=
  let lastTokenId := s.ownedTokens_ src lastTokenIndex
  { s with
    ownedTokens_ := Function.update s.ownedTokens_ src
      (Function.update (s.ownedTokens_ src) tokenIndex lastTokenId)
    ownedTokensIndex_ := Function.update s.ownedTokensIndex_ lastTokenId tokenIndex }

/-- `_removeTokenFromOwnerEnumeration` -/
def removeTokenFromOwnerEnumeration_ (src : Address) (tokenId : Nat) (s : NounsToken) :
    Result NounsToken := do
  let balance ← s.balanceOf src
  let lastTokenIndex ← sub balance 1
  let tokenIndex := s.ownedTokensIndex_ tokenId
  let s := if tokenIndex ≠ lastTokenIndex then
      s.swapOwnedTokens_ src tokenIndex lastTokenIndex
    else s
  return { s with
    ownedTokensIndex_ := Function.update s.ownedTokensIndex_ tokenId 0
    ownedTokens_ := Function.update s.ownedTokens_ src
      (Function.update (s.ownedTokens_ src) lastTokenIndex 0) }

/-- `_removeTokenFromAllTokensEnumeration` -/
def removeTokenFromAllTokensEnumeration_ (tokenId : Nat) (s : NounsToken) :
    Result NounsToken := do
  let lastTokenIndex ← sub s.allTokens_.length 1
  let tokenIndex := s.allTokensIndex_ tokenId
  let lastTokenId ← index s.allTokens_ lastTokenIndex
  -- the write `_allTokens[tokenIndex] = lastTokenId` is bounds-checked as well
  let _ ← index s.allTokens_ tokenIndex
  let allTokensIndex_ := Function.update s.allTokensIndex_ lastTokenId tokenIndex
  return { s with
    allTokens_ := (s.allTokens_.set tokenIndex lastTokenId).dropLast
    allTokensIndex_ := Function.update allTokensIndex_ tokenId 0 }

/-- `ERC721Enumerable._beforeTokenTransfer` -/
def beforeTokenTransferEnumerable_ (src dst : Address) (tokenId : Nat) (s : NounsToken) :
    Result NounsToken := do
  let s ← (if src = 0 then .ok (s.addTokenToAllTokensEnumeration_ tokenId)
    else if src ≠ dst then s.removeTokenFromOwnerEnumeration_ src tokenId
    else .ok s)
  if dst = 0 then s.removeTokenFromAllTokensEnumeration_ tokenId
  else if dst ≠ src then s.addTokenToOwnerEnumeration_ dst tokenId
  else .ok s

/-! ## ERC721 -/

/-- `ownerOf` -/
def ownerOf (s : NounsToken) (tokenId : Nat) : Result Address := do
  require (s.owners_ tokenId ≠ 0) "ERC721: owner query for nonexistent token"
  return s.owners_ tokenId

/-- `_exists` -/
def exists_ (s : NounsToken) (tokenId : Nat) : Bool := s.owners_ tokenId ≠ 0

/-- `getApproved` -/
def getApproved (s : NounsToken) (tokenId : Nat) : Result Address := do
  require (s.exists_ tokenId) "ERC721: approved query for nonexistent token"
  return s.tokenApprovals_ tokenId

/-- `_approve` -/
def approve_ (dst : Address) (tokenId : Nat) (s : NounsToken) : Result NounsToken := do
  let s := { s with tokenApprovals_ := Function.update s.tokenApprovals_ tokenId dst }
  let owner ← s.ownerOf tokenId
  return s.emit (.approval owner dst tokenId)

section
variable (isApprovedForAll : NounsToken → Address → Address → Bool)

/-- `approve` -/
def erc721Approve (sender dst : Address) (tokenId : Nat) (s : NounsToken) :
    Result NounsToken := do
  let owner ← s.ownerOf tokenId
  require (dst ≠ owner) "ERC721: approval to current owner"
  require (sender = owner ∨ isApprovedForAll s owner sender)
    "ERC721: approve caller is not owner nor approved for all"
  s.approve_ dst tokenId

/-- `setApprovalForAll` -/
def setApprovalForAll (sender operator : Address) (approved : Bool) (s : NounsToken) :
    Result NounsToken := do
  require (operator ≠ sender) "ERC721: approve to caller"
  let s := { s with
    operatorApprovals_ := Function.update s.operatorApprovals_ sender
      (Function.update (s.operatorApprovals_ sender) operator approved) }
  return s.emit (.approvalForAll sender operator approved)

/-- `_isApprovedOrOwner` -/
def isApprovedOrOwner_ (s : NounsToken) (spender : Address) (tokenId : Nat) : Result Bool := do
  require (s.exists_ tokenId) "ERC721: operator query for nonexistent token"
  let owner ← s.ownerOf tokenId
  let approved ← s.getApproved tokenId
  return spender = owner ∨ approved = spender ∨ isApprovedForAll s owner spender

end

section
variable (beforeTokenTransfer_ : Address → Address → Nat → NounsToken → Result NounsToken)

/-- `_mint` -/
def mint_ (creator dst : Address) (tokenId : Nat) (s : NounsToken) : Result NounsToken := do
  require (dst ≠ 0) "ERC721: mint to the zero address"
  require (¬ s.exists_ tokenId) "ERC721: token already minted"
  let s ← beforeTokenTransfer_ 0 dst tokenId s
  let balance ← add 256 (s.balances_ dst) 1
  let s := { s with
    balances_ := Function.update s.balances_ dst balance
    owners_ := Function.update s.owners_ tokenId dst }
  return (s.emit (.transfer 0 creator tokenId)).emit (.transfer creator dst tokenId)

/-- `_burn` -/
def burn_ (tokenId : Nat) (s : NounsToken) : Result NounsToken := do
  let owner ← s.ownerOf tokenId
  let s ← beforeTokenTransfer_ owner 0 tokenId s
  let s ← s.approve_ 0 tokenId
  let balance ← sub (s.balances_ owner) 1
  let s := { s with
    balances_ := Function.update s.balances_ owner balance
    owners_ := Function.update s.owners_ tokenId 0 }
  return s.emit (.transfer owner 0 tokenId)

/-- `_transfer` -/
def transfer_ (src dst : Address) (tokenId : Nat) (s : NounsToken) : Result NounsToken := do
  let owner ← s.ownerOf tokenId
  require (owner = src) "ERC721: transfer of token that is not own"
  require (dst ≠ 0) "ERC721: transfer to the zero address"
  let s ← beforeTokenTransfer_ src dst tokenId s
  let s ← s.approve_ 0 tokenId
  let srcBalance ← sub (s.balances_ src) 1
  let s := { s with balances_ := Function.update s.balances_ src srcBalance }
  let dstBalance ← add 256 (s.balances_ dst) 1
  let s := { s with
    balances_ := Function.update s.balances_ dst dstBalance
    owners_ := Function.update s.owners_ tokenId dst }
  return s.emit (.transfer src dst tokenId)

end

end NounsToken

end Nouns
