import Mathlib.Data.Fintype.OfMap
import Mathlib.Data.Fintype.Card
import Mathlib.Data.Fin.Basic
import Mathlib.Algebra.Group.Nat.Defs
import Mathlib.Logic.Function.Basic
import Mathlib.Tactic.DeriveFintype

/-!
# What contract code is made of

Addresses, the ways a call reverts, the checked arithmetic of the compiler and the
block a transaction runs in. Unsigned integers are natural numbers; an operation
that leaves its width reverts, which is the only thing the width is for.

A leading underscore of the source is written at the end of the name: `_mint` is
`mint_`.
-/

namespace Evm

/-- A 160-bit account address. -/
structure Address where
  val : Fin (2 ^ 160)
deriving DecidableEq, Fintype

/-- `address(0)` -/
instance : Zero Address := ⟨⟨0⟩⟩

instance : Inhabited Address := ⟨0⟩

/-- The address a number denotes. -/
def Address.ofNat (n : Nat) : Address := ⟨Fin.ofNat (2 ^ 160) n⟩

/--
Why a call reverted: with a reason (`Error(string)`), with a compiler-generated
panic, or with any other return data, none included.
-/
inductive Revert where
  | error (reason : String)
  | panic (code : Nat)
  | raw
deriving DecidableEq, Repr

/-- The result of code that may revert. -/
abbrev Result (α : Type) := Except Revert α

/-- `require(c, reason)` -/
def require (c : Prop) [Decidable c] (reason : String) : Result Unit :=
  if c then .ok () else .error (.error reason)

/-- `require(c)`, without a reason -/
def requireRaw (c : Prop) [Decidable c] : Result Unit := if c then .ok () else .error .raw

/-- Checked addition in `w` bits. -/
def add (w a b : Nat) : Result Nat :=
  if a + b < 2 ^ w then .ok (a + b) else .error (.panic 0x11)

/-- Checked subtraction. -/
def sub (a b : Nat) : Result Nat :=
  if b ≤ a then .ok (a - b) else .error (.panic 0x11)

/-- Checked multiplication in `w` bits. -/
def mul (w a b : Nat) : Result Nat :=
  if a * b < 2 ^ w then .ok (a * b) else .error (.panic 0x11)

/-- `xs[i]`, for an array -/
def index {α : Type} (xs : List α) (i : Nat) : Result α :=
  match xs[i]? with
  | some x => .ok x
  | none => .error (.panic 0x32)

/-- The block a transaction is in. -/
structure Block where
  number : Nat
  timestamp : Nat
deriving DecidableEq, Repr

/-- Time does not run backwards. -/
def Block.tick (now next : Block) : Option Block :=
  if now.number ≤ next.number ∧ now.timestamp ≤ next.timestamp then some next else none

/-- Why a result is a revert, if it is. -/
def revertOf {α : Type} : Result α → Option Revert
  | .ok _ => none
  | .error e => some e

/-! ## Taking successful runs apart -/

section
variable {α β : Type}

theorem bind_ok {x : Result α} {f : α → Result β} {b : β} :
    (x >>= f) = .ok b ↔ ∃ a, x = .ok a ∧ f a = .ok b := by
  cases x with
  | error e =>
      constructor
      · intro h; cases h
      · rintro ⟨a, h, _⟩; cases h
  | ok a =>
      constructor
      · intro h; exact ⟨a, rfl, h⟩
      · rintro ⟨_, h, h'⟩; cases h; exact h'

theorem bind_of_ok {x : Result α} {f : α → Result β} {a : α} (hx : x = .ok a) : (x >>= f) = f a := by
  rw [hx]
  rfl

/-- Code that goes through, one call after the other. -/
theorem bind_total {x : Result α} {f : α → Result β} {a : α} (hx : x = .ok a)
    (hf : ∃ b, f a = .ok b) : ∃ b, (x >>= f) = .ok b := by
  obtain ⟨b, hb⟩ := hf
  exact ⟨b, bind_ok.mpr ⟨a, hx, hb⟩⟩

/-- What a loop keeps, having run its turns below `n`. -/
theorem foldlM_range_ok {f : α → Nat → Result α} {a b : α} {n : Nat} {I : Nat → α → Prop}
    (h : (List.range n).foldlM f a = .ok b) (h0 : I 0 a)
    (hstep : ∀ i a b, i < n → I i a → f a i = .ok b → I (i + 1) b) : I n b := by
  induction n generalizing b with
  | zero =>
      obtain rfl := Except.ok.inj h
      exact h0
  | succ n ih =>
      rw [List.range_succ, List.foldlM_append, bind_ok] at h
      obtain ⟨c, hc, hb⟩ := h
      rw [List.foldlM_cons, bind_ok] at hb
      obtain ⟨d, hd, hb⟩ := hb
      obtain rfl := Except.ok.inj hb
      exact hstep n c d (Nat.lt_succ_self n)
        (ih hc fun i a b hi => hstep i a b (Nat.lt_succ_of_lt hi)) hd

/-- A loop goes through when each turn does, having what the turns before it keep. -/
theorem foldlM_range_total {f : α → Nat → Result α} {a : α} {n : Nat} {I : Nat → α → Prop}
    (h0 : I 0 a) (hstep : ∀ i a, i < n → I i a → ∃ b, f a i = .ok b ∧ I (i + 1) b) :
    ∃ b, (List.range n).foldlM f a = .ok b ∧ I n b := by
  induction n with
  | zero => exact ⟨a, rfl, h0⟩
  | succ n ih =>
      obtain ⟨c, hc, hI⟩ := ih fun i a hi => hstep i a (Nat.lt_succ_of_lt hi)
      obtain ⟨b, hb, hI⟩ := hstep n c (Nat.lt_succ_self n) hI
      refine ⟨b, ?_, hI⟩
      rw [List.range_succ, List.foldlM_append, bind_ok]
      exact ⟨c, hc, by rw [List.foldlM_cons, bind_of_ok hb]; rfl⟩

@[simp] theorem require_ok {c : Prop} [Decidable c] {reason : String} {u : Unit} :
    require c reason = .ok u ↔ c := by
  unfold require; split <;> simp [*]

@[simp] theorem requireRaw_ok {c : Prop} [Decidable c] {u : Unit} : requireRaw c = .ok u ↔ c := by
  unfold requireRaw; split <;> simp [*]

theorem require_total {c : Prop} [Decidable c] {reason : String} (h : c) :
    require c reason = .ok () := require_ok.mpr h

theorem requireRaw_total {c : Prop} [Decidable c] (h : c) : requireRaw c = .ok () :=
  requireRaw_ok.mpr h

@[simp] theorem add_ok {w a b n : Nat} : add w a b = .ok n ↔ a + b < 2 ^ w ∧ n = a + b := by
  unfold add; split <;> simp [*, eq_comm]

@[simp] theorem sub_ok {a b n : Nat} : sub a b = .ok n ↔ b ≤ a ∧ n = a - b := by
  unfold sub; split <;> simp [*, eq_comm]

@[simp] theorem mul_ok {w a b n : Nat} : mul w a b = .ok n ↔ a * b < 2 ^ w ∧ n = a * b := by
  unfold mul; split <;> simp [*, eq_comm]

@[simp] theorem index_ok {xs : List α} {i : Nat} {x : α} :
    index xs i = .ok x ↔ xs[i]? = some x := by
  unfold index; split <;> simp [*]

@[simp] theorem tick_some {now next b : Block} :
    now.tick next = some b ↔
      now.number ≤ b.number ∧ now.timestamp ≤ b.timestamp ∧ next = b := by
  unfold Block.tick; split <;> grind

@[simp] theorem revertOf_some {x : Result α} {e : Revert} :
    revertOf x = some e ↔ x = .error e := by
  cases x <;> simp [revertOf]

theorem toOption_some {x : Result α} {a : α} : x.toOption = some a ↔ x = .ok a := by
  cases x <;> simp [Except.toOption]

/-! ## Reverting for other reasons -/

/-- Code that does not revert with `e`. -/
def Avoids (e : Revert) (x : Result α) : Prop := x ≠ .error e

variable {e : Revert}

theorem avoids_bind {x : Result α} {f : α → Result β} (hx : Avoids e x)
    (hf : ∀ a, x = .ok a → Avoids e (f a)) : Avoids e (x >>= f) := by
  cases x with
  | error e' => exact fun h => hx (by cases h; rfl)
  | ok a => exact hf a rfl

@[simp] theorem avoids_ok {a : α} : Avoids e (.ok a : Result α) := by simp [Avoids]

@[simp] theorem avoids_pure {a : α} : Avoids e (pure a : Result α) := avoids_ok

theorem avoids_require {c : Prop} [Decidable c] {reason : String} (h : e ≠ .error reason) :
    Avoids e (require c reason) := by
  unfold require; split <;> simp [Avoids, Ne.symm h]

section
variable {text : String} {w a b : Nat}

@[simp] theorem avoids_add : Avoids (.error text) (add w a b) := by
  unfold add; split <;> simp [Avoids]

@[simp] theorem avoids_sub : Avoids (.error text) (sub a b) := by
  unfold sub; split <;> simp [Avoids]

@[simp] theorem avoids_index {xs : List α} {i : Nat} : Avoids (.error text) (index xs i) := by
  unfold index; split <;> simp [Avoids]

end

end

end Evm
