import Nouns.Token.Storage

/-!
# NounsSeeder

Drawing a Noun's seed from the hash of the previous block. Keccak is a parameter, and so
is what `blockhash` answers; a descriptor is its part counts. `SeedSource` says which
addresses have the code of a seeder or a descriptor.
-/

namespace Nouns

open Evm

/-- `bytes32` -/
structure Bytes32 where
  bytes : List UInt8
  length_eq : bytes.length = 32

/-- `uint256(b)` -/
def Bytes32.toUint (b : Bytes32) : Nat := b.bytes.foldl (fun n x => 256 * n + x.toNat) 0

/-- A `uint256` as `abi.encodePacked` writes it. -/
def uint256Bytes (n : Nat) : List UInt8 :=
  (List.range 32).map fun i => UInt8.ofNat (n / 256 ^ (31 - i))

/-- `uint48(n)` -/
def uint48 (n : Nat) : Nat := n % 2 ^ 48

/-- What the seeder asks the descriptor for. -/
structure PartCounts where
  backgroundCount : Nat
  bodyCount : Nat
  accessoryCount : Nat
  headCount : Nat
  glassesCount : Nat

/-- `a % b` -/
def checkedMod (a b : Nat) : Result Nat := if b = 0 then .error (.panic 0x12) else .ok (a % b)

/-- `keccak256(abi.encodePacked(hash, nounId))` as a number -/
def pseudorandomness (keccak256 : List UInt8 → Bytes32) (hash : Bytes32) (nounId : Nat) : Nat :=
  (keccak256 (hash.bytes ++ uint256Bytes nounId)).toUint

/-- `generateSeed` -/
def generateSeed (keccak256 : List UInt8 → Bytes32) (blockhash : Nat → Bytes32) (block : Block)
    (nounId : Nat) (descriptor : PartCounts) : Result Seed := do
  let previous ← sub block.number 1
  let pseudorandomness := pseudorandomness keccak256 (blockhash previous) nounId
  let background ← checkedMod (uint48 pseudorandomness) descriptor.backgroundCount
  let body ← checkedMod (uint48 (pseudorandomness >>> 48)) descriptor.bodyCount
  let accessory ← checkedMod (uint48 (pseudorandomness >>> 96)) descriptor.accessoryCount
  let head ← checkedMod (uint48 (pseudorandomness >>> 144)) descriptor.headCount
  let glasses ← checkedMod (uint48 (pseudorandomness >>> 192)) descriptor.glassesCount
  return {
    background := uint48 background
    body := uint48 body
    accessory := uint48 accessory
    head := uint48 head
    glasses := uint48 glasses }

/--
The contracts a seed is drawn from: what `keccak256` and `blockhash` answer, where a
NounsSeeder is deployed, and where a NounsDescriptor is, with its parts.
-/
structure SeedSource where
  keccak256 : List UInt8 → Bytes32
  blockhash : Nat → Bytes32
  isSeeder : Address → Bool
  parts : Address → Option PartCounts

/--
`seeder.generateSeed(nounId, descriptor)`. A call that expects an answer from an account
without the code to give one reverts without data.
-/
def SeedSource.generateSeed (source : SeedSource) (block : Block) (seeder : Address) (nounId : Nat)
    (descriptor : Address) : Result Seed :=
  if source.isSeeder seeder then
    match source.parts descriptor with
    | some parts => Nouns.generateSeed source.keccak256 source.blockhash block nounId parts
    | none => do
      let _ ← sub block.number 1
      .error .raw
  else .error .raw

end Nouns
