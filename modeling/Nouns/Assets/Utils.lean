import Nouns.Lib.JsText
import Nouns.Token.NounsSeeder

/-!
# Predicting seeds

`utils.ts` of the assets package. What it uses of ethers is the record `Ethers`, and
`Ethers.Documented` is what it relies on; big numbers are natural numbers, as every digest
is. Where the code throws, the result is `none`.
-/

namespace Nouns

open JsText

/-- `hexlify(bytes)`, which is also how a node writes a block hash. -/
def Bytes32.hexlify (b : Bytes32) : String :=
  "0x" ++ String.ofList (b.bytes.flatMap fun x => hexByte x.toNat)

namespace Assets

/-- The parts of ethers that are used. -/
structure Ethers where
  /-- `BigNumber.from(s)`, for a string -/
  fromString : String → Option Nat
  /-- `BigNumber.from(n)`, for a number -/
  fromNumber : Nat → Option Nat
  toHexString : Nat → String
  shr : Nat → Nat → Nat
  mod : Nat → Nat → Option Nat
  toNumber : Nat → Option Nat
  /-- `keccak256(['bytes32', 'uint256'], [hash, id])` of the solidity package -/
  solidityKeccak256 : String → Nat → String

/-- `/^-?0x[0-9a-f]+$/i` -/
def isHexNumber (s : List Char) : Bool :=
  match (if s.head? = some '-' then s.tail else s) with
  | '0' :: x :: digits => (x = 'x' || x = 'X') && !digits.isEmpty && digits.all isHexDigit
  | _ => false

/-- `/^-?[0-9]+$/` -/
def isDecimalNumber (s : List Char) : Bool :=
  let digits := if s.head? = some '-' then s.tail else s
  !digits.isEmpty && digits.all Char.isDigit

/-- The largest number a JavaScript number holds exactly along with all below. -/
def maxSafeInteger : Nat := 2 ^ 53 - 1

/-- What the code relies on. -/
structure Ethers.Documented (keccak256 : List UInt8 → Bytes32) (ethers : Ethers) : Prop where
  fromString_hex : ∀ digits : List Char, digits ≠ [] → (∀ c ∈ digits, isHexDigit c = true) →
    ethers.fromString ("0x" ++ String.ofList digits) = some (ofHex digits)
  fromString_invalid : ∀ s : String, isHexNumber s.toList = false →
    isDecimalNumber s.toList = false → ethers.fromString s = none
  fromNumber_safe : ∀ n, n < maxSafeInteger → ethers.fromNumber n = some n
  fromNumber_unsafe : ∀ n, maxSafeInteger ≤ n → ethers.fromNumber n = none
  /-- `0x` and an even number of digits, no more than it takes. -/
  toHexString_even : ∀ n, ∃ digits : List Char,
    ethers.toHexString n = "0x" ++ String.ofList digits ∧ (∀ c ∈ digits, isHexDigit c = true)
      ∧ ofHex digits = n ∧ 2 ∣ digits.length
      ∧ (digits.length ≤ 2 ∨ 16 ^ (digits.length - 2) ≤ n)
  shr_eq : ∀ n k, ethers.shr n k = n >>> k
  mod_eq : ∀ n m, 0 < m → ethers.mod n m = some (n % m)
  toNumber_safe : ∀ n, n ≤ maxSafeInteger → ethers.toNumber n = some n
  solidityKeccak256_eq : ∀ (hash : Bytes32) (nounId : Nat), nounId < 2 ^ 256 →
    ethers.solidityKeccak256 hash.hexlify nounId
      = (keccak256 (hash.bytes ++ uint256Bytes nounId)).hexlify

variable (ethers : Ethers)

/--
`shiftRightAndCast`. The width in digits is a fraction where `uintSize` is no multiple of
four, which `substring` rounds away.
-/
def shiftRightAndCast (value : String) (shiftAmount uintSize : Nat) : Option String := do
  let shifted := (ethers.toHexString (ethers.shr (← ethers.fromString value) shiftAmount)).toList
  return "0x" ++ String.ofList
    (substringFrom shifted ((4 * shifted.length - uintSize : Int).tdiv 4))

/-- `getPseudorandomPart` -/
def getPseudorandomPart (pseudorandomness : String) (partCount shiftAmount uintSize : Nat) :
    Option Nat := do
  let hex ← shiftRightAndCast ethers pseudorandomness shiftAmount uintSize
  ethers.toNumber (← ethers.mod (← ethers.fromString hex) (← ethers.fromNumber partCount))

/-- The lengths in `image-data.json`: backgrounds, bodies, accessories, heads and glasses. -/
def imageData : PartCounts := ⟨2, 30, 137, 234, 21⟩

/-- `getNounSeedFromBlockHash` -/
def getNounSeedFromBlockHash (nounId : Nat) (blockHash : String) : Option Seed := do
  let pseudorandomness := ethers.solidityKeccak256 blockHash nounId
  let background ← getPseudorandomPart ethers pseudorandomness imageData.backgroundCount 0 48
  let body ← getPseudorandomPart ethers pseudorandomness imageData.bodyCount 48 48
  let accessory ← getPseudorandomPart ethers pseudorandomness imageData.accessoryCount 96 48
  let head ← getPseudorandomPart ethers pseudorandomness imageData.headCount 144 48
  let glasses ← getPseudorandomPart ethers pseudorandomness imageData.glassesCount 192 48
  return ⟨background, body, accessory, head, glasses⟩

end Assets

end Nouns
