import Nouns.Evm.Basic

/-!
# Wrapped ether

`WETH.sol`, the token the auction house falls back on. Its events are left out.
-/

namespace Nouns

open Evm

/-- The storage of `WETH.sol`, and the ether it holds. -/
structure WETH where
  balanceOf : Address → Nat
  allowance : Address → Address → Nat
  ether : Nat

namespace WETH

/-- `deposit`, with `value` sent along. -/
def deposit (sender : Address) (value : Nat) (s : WETH) : Result WETH := do
  let balance ← add 256 (s.balanceOf sender) value
  return { s with
    balanceOf := Function.update s.balanceOf sender balance
    ether := s.ether + value }

/-- `withdraw`. The ether is sent with too little gas for the recipient to call anybody. -/
def withdraw (sender : Address) (wad : Nat) (s : WETH) : Result WETH := do
  requireRaw (wad ≤ s.balanceOf sender)
  let balance ← sub (s.balanceOf sender) wad
  requireRaw (wad ≤ s.ether)
  return { s with
    balanceOf := Function.update s.balanceOf sender balance
    ether := s.ether - wad }

/-- `approve` -/
def approve (sender guy : Address) (wad : Nat) (s : WETH) : WETH :=
  { s with allowance :=
      Function.update s.allowance sender (Function.update (s.allowance sender) guy wad) }

/-- The allowance `transferFrom` uses up, unless it is the sender's own or infinite. -/
def spendAllowance (sender src : Address) (wad : Nat) (s : WETH) : Result WETH :=
  if src ≠ sender ∧ s.allowance src sender ≠ 2 ^ 256 - 1 then do
    requireRaw (wad ≤ s.allowance src sender)
    let allowance ← sub (s.allowance src sender) wad
    return s.approve src sender allowance
  else .ok s

/-- `transferFrom` -/
def transferFrom (sender src dst : Address) (wad : Nat) (s : WETH) : Result WETH := do
  requireRaw (wad ≤ s.balanceOf src)
  let s ← s.spendAllowance sender src wad
  let srcBalance ← sub (s.balanceOf src) wad
  let s := { s with balanceOf := Function.update s.balanceOf src srcBalance }
  let dstBalance ← add 256 (s.balanceOf dst) wad
  return { s with balanceOf := Function.update s.balanceOf dst dstBalance }

/-- `transfer` -/
def transfer (sender dst : Address) (wad : Nat) (s : WETH) : Result WETH :=
  s.transferFrom sender sender dst wad

end WETH

/-- The state-changing entry points of WETH; `deposit` is what its fallbacks run as well. -/
inductive WETHCall where
  | deposit (value : Nat)
  | withdraw (wad : Nat)
  | approve (guy : Address) (wad : Nat)
  | transfer (dst : Address) (wad : Nat)
  | transferFrom (src dst : Address) (wad : Nat)

/-- What a call does to WETH. -/
def WETH.call (sender : Address) (s : WETH) : WETHCall → Result WETH
  | .deposit value => s.deposit sender value
  | .withdraw wad => s.withdraw sender wad
  | .approve guy wad => .ok (s.approve sender guy wad)
  | .transfer dst wad => s.transfer sender dst wad
  | .transferFrom src dst wad => s.transferFrom sender src dst wad

end Nouns
