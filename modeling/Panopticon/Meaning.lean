import Panopticon.Statement
import Panopticon.Library.Word

/-! What RREIL values and operations mean: bit-vectors under an assignment to the variables. An undefined
operand stands for any bit-vector. -/

namespace Panopticon
open Panopticon.Library.Word

structure Bits where
  size : Nat
  value : Nat
  small : value < 2 ^ size

namespace Bits

@[ext] theorem ext {x y : Bits} (size : x.size = y.size) (value : x.value = y.value) : x = y := by
  cases x
  cases y
  simp_all

def ofInt (size : Nat) (i : Int) : Bits where
  size := size
  value := (i % 2 ^ size).toNat
  small := by
    have high := Int.emod_lt_of_pos i (show (0 : Int) < 2 ^ size by positivity)
    have low := Int.emod_nonneg i (show (2 ^ size : Int) ≠ 0 by positivity)
    zify
    rwa [Int.toNat_of_nonneg low]

def ofNat (size n : Nat) : Bits := ⟨size, n % 2 ^ size, Nat.mod_lt _ (by positivity)⟩

def flag (holds : Bool) : Bits := ofNat 1 (if holds then 1 else 0)

def signed (x : Bits) : Int := twos x.size x.value

@[simp] theorem size_ofNat (size n : Nat) : (ofNat size n).size = size := rfl

@[simp] theorem value_ofNat (size n : Nat) : (ofNat size n).value = n % 2 ^ size := rfl

@[simp] theorem signed_zero (size : Nat) : (ofNat size 0).signed = 0 := by
  simp [signed, twos]

theorem ofNat_eq_iff {s n m : Nat} : ofNat s n = ofNat s m ↔ n % 2 ^ s = m % 2 ^ s := by
  constructor
  · intro same
    exact congrArg value same
  · intro same
    exact ext rfl same

theorem flag_inj {p q : Bool} : flag p = flag q ↔ p = q := by
  unfold flag
  rw [ofNat_eq_iff]
  cases p <;> cases q <;> decide

theorem ofInt_natCast (size n : Nat) : ofInt size n = ofNat size n := by
  apply ext rfl
  change ((n : Int) % 2 ^ size).toNat = n % 2 ^ size
  norm_cast

theorem ofNat_value (x : Bits) : ofNat x.size x.value = x := ext rfl (Nat.mod_eq_of_lt x.small)

theorem ofInt_eq_iff {s : Nat} {i j : Int} : ofInt s i = ofInt s j ↔ i % 2 ^ s = j % 2 ^ s := by
  have positive : (2 ^ s : Int) ≠ 0 := by positivity
  constructor
  · intro same
    have values : (i % 2 ^ s).toNat = (j % 2 ^ s).toNat := congrArg value same
    have lowI := Int.emod_nonneg i positive
    have lowJ := Int.emod_nonneg j positive
    omega
  · intro same
    unfold ofInt
    simp only [same]

theorem ofInt_signed (x : Bits) : ofInt x.size x.signed = x := by
  rw [signed]
  conv_rhs => rw [← ofNat_value x, ← ofInt_natCast]
  rw [ofInt_eq_iff, twos_emod]

end Bits

/-- The bits of every variable, as a number. -/
abbrev Valuation := String → Option Nat → Nat

namespace Rvalue

/-- A variable slice is the bits `offset` up to `offset + size` of its variable. -/
def denote (ρ : Valuation) : Rvalue → Option Bits
  | .constant value size => some (.ofNat size value.toNat)
  | .var name subscript offset size => some (.ofNat size (ρ name subscript / 2 ^ offset))
  | .undefined => none

def Denotes (ρ : Valuation) (rv : Rvalue) (x : Bits) : Prop := ∀ y ∈ rv.denote ρ, x = y

/-- A constant that its size can hold, itself held by a machine word. -/
def Fits : Rvalue → Prop
  | .constant value size => size ≤ 64 ∧ value.toNat < 2 ^ size
  | _ => True

end Rvalue

namespace Operation

/-- What an operation computes on bit-vectors. Nothing is computed from operands of different
sizes and from a zero divisor. -/
def Computes : Operation Bits → Bits → Prop
  | .add x y, r => x.size = y.size ∧ r = .ofNat x.size (x.value + y.value)
  | .subtract x y, r => x.size = y.size ∧ r = .ofInt x.size (x.value - y.value)
  | .multiply x y, r => x.size = y.size ∧ r = .ofNat x.size (x.value * y.value)
  | .divideUnsigned x y, r => x.size = y.size ∧ y.value ≠ 0 ∧ r = .ofNat x.size (x.value / y.value)
  | .divideSigned x y, r => x.size = y.size ∧ y.value ≠ 0 ∧ r = .ofInt x.size (x.signed.tdiv y.signed)
  | .shiftLeft x y, r => x.size = y.size ∧ r = .ofNat x.size (x.value * 2 ^ y.value)
  | .shiftRightUnsigned x y, r => x.size = y.size ∧ r = .ofNat x.size (x.value / 2 ^ y.value)
  | .shiftRightSigned x y, r => x.size = y.size ∧ r = .ofInt x.size (x.signed / 2 ^ y.value)
  | .modulo x y, r => x.size = y.size ∧ y.value ≠ 0 ∧ r = .ofNat x.size (x.value % y.value)
  | .and x y, r => x.size = y.size ∧ r = .ofNat x.size (x.value &&& y.value)
  | .inclusiveOr x y, r => x.size = y.size ∧ r = .ofNat x.size (x.value ||| y.value)
  | .exclusiveOr x y, r => x.size = y.size ∧ r = .ofNat x.size (x.value ^^^ y.value)
  | .equal x y, r => x.size = y.size ∧ r = .flag (x.value = y.value)
  | .lessOrEqualUnsigned x y, r => x.size = y.size ∧ r = .flag (x.value ≤ y.value)
  | .lessOrEqualSigned x y, r => x.size = y.size ∧ r = .flag (x.signed ≤ y.signed)
  | .lessUnsigned x y, r => x.size = y.size ∧ r = .flag (x.value < y.value)
  | .lessSigned x y, r => x.size = y.size ∧ r = .flag (x.signed < y.signed)
  | .zeroExtend size x, r => r = .ofNat size x.value
  | .signExtend size x, r => r = .ofInt size x.signed
  | .move x, r => r = x
  | .select offset x y, r => offset + y.size ≤ x.size ∧ r.size = x.size ∧
    ∀ i, r.value.testBit i = if offset ≤ i ∧ i < offset + y.size then y.value.testBit (i - offset) else x.value.testBit i
  -- one of the values that meet
  | .phi operands, r => r ∈ operands
  -- memory and the surroundings hold anything
  | .load _ _ size _, r => r.size = size
  | .initialized _ size, r => r.size = size
  | .call _, _ => True
  | .store _ _ _ _ _, _ => True

def resultSize : Operation Rvalue → Option Nat
  | .add a b | .subtract a b | .multiply a b | .divideUnsigned a b | .divideSigned a b | .shiftLeft a b
  | .shiftRightUnsigned a b | .shiftRightSigned a b | .modulo a b | .and a b | .inclusiveOr a b
  | .exclusiveOr a b => a.size <|> b.size
  | .equal _ _ | .lessOrEqualUnsigned _ _ | .lessOrEqualSigned _ _ | .lessUnsigned _ _ | .lessSigned _ _ => some 1
  | .zeroExtend size _ | .signExtend size _ | .load _ _ size _ | .initialized _ size => some size
  | .move a | .select _ a _ => a.size
  | .phi operands => operands.head?.bind Rvalue.size
  | .call _ | .store _ _ _ _ _ => none

end Operation

end Panopticon
