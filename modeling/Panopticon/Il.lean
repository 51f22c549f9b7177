import Mathlib

/-! The RREIL intermediate language: values, guards, operations and the evaluation
of one operation. Machine words are `UInt64`, whose arithmetic wraps and whose
shifts take the amount modulo 64, as a build without debug assertions does. -/

namespace Panopticon

/-- A readable RREIL value. -/
inductive Rvalue where
  | undefined
  | var (name : String) (subscript : Option Nat) (offset size : Nat)
  | constant (value : UInt64) (size : Nat)
  deriving DecidableEq, Repr

namespace Rvalue

def newU64 (v : UInt64) : Rvalue := .constant v 64

def size : Rvalue → Option Nat
  | .constant _ size => some size
  | .var _ _ _ size => some size
  | .undefined => none

def constant? : Rvalue → Option UInt64
  | .constant value _ => some value
  | _ => none

end Rvalue

/-- A writeable RREIL value. -/
inductive Lvalue where
  | undefined
  | var (name : String) (subscript : Option Nat) (size : Nat)
  deriving DecidableEq, Repr

namespace Lvalue

def fromRvalue : Rvalue → Option Lvalue
  | .undefined => some .undefined
  | .var name subscript 0 size => some (.var name subscript size)
  | _ => none

def toRvalue : Lvalue → Rvalue
  | .undefined => .undefined
  | .var name subscript size => .var name subscript 0 size

def size : Lvalue → Option Nat
  | .var _ _ size => some size
  | .undefined => none

end Lvalue

/-- Branch condition. The constructors `always` and `never` are the constant guards. -/
inductive Guard where
  | always
  | never
  | predicate (flag : Rvalue) (expected : Bool)
  deriving DecidableEq, Repr

inductive Endianess where
  | little
  | big
  deriving DecidableEq, Repr

inductive Operation (V : Type) where
  | add (a b : V)
  | subtract (a b : V)
  | multiply (a b : V)
  | divideUnsigned (a b : V)
  | divideSigned (a b : V)
  | shiftLeft (a b : V)
  | shiftRightUnsigned (a b : V)
  | shiftRightSigned (a b : V)
  | modulo (a b : V)
  | and (a b : V)
  | inclusiveOr (a b : V)
  | exclusiveOr (a b : V)
  | equal (a b : V)
  | lessOrEqualUnsigned (a b : V)
  | lessOrEqualSigned (a b : V)
  | lessUnsigned (a b : V)
  | lessSigned (a b : V)
  | zeroExtend (size : Nat) (a : V)
  | signExtend (size : Nat) (a : V)
  | move (a : V)
  | call (a : V)
  | initialized (name : String) (size : Nat)
  | select (offset : Nat) (a b : V)
  | load (region : String) (endianess : Endianess) (size : Nat) (a : V)
  | store (region : String) (endianess : Endianess) (size : Nat) (a b : V)
  | phi (operands : List V)
  deriving DecidableEq, Repr

namespace Operation

def operands : Operation V → List V
  | .add a b | .subtract a b | .multiply a b | .divideUnsigned a b | .divideSigned a b
  | .shiftLeft a b | .shiftRightUnsigned a b | .shiftRightSigned a b | .modulo a b
  | .and a b | .inclusiveOr a b | .exclusiveOr a b | .equal a b
  | .lessOrEqualUnsigned a b | .lessOrEqualSigned a b | .lessUnsigned a b | .lessSigned a b
  | .select _ a b | .store _ _ _ a b => [a, b]
  | .zeroExtend _ a | .signExtend _ a | .move a | .call a | .load _ _ _ a => [a]
  | .initialized _ _ => []
  | .phi operands => operands

def lift (m : V → W) : Operation V → Operation W
  | .add a b => .add (m a) (m b)
  | .subtract a b => .subtract (m a) (m b)
  | .multiply a b => .multiply (m a) (m b)
  | .divideUnsigned a b => .divideUnsigned (m a) (m b)
  | .divideSigned a b => .divideSigned (m a) (m b)
  | .shiftLeft a b => .shiftLeft (m a) (m b)
  | .shiftRightUnsigned a b => .shiftRightUnsigned (m a) (m b)
  | .shiftRightSigned a b => .shiftRightSigned (m a) (m b)
  | .modulo a b => .modulo (m a) (m b)
  | .and a b => .and (m a) (m b)
  | .inclusiveOr a b => .inclusiveOr (m a) (m b)
  | .exclusiveOr a b => .exclusiveOr (m a) (m b)
  | .equal a b => .equal (m a) (m b)
  | .lessOrEqualUnsigned a b => .lessOrEqualUnsigned (m a) (m b)
  | .lessOrEqualSigned a b => .lessOrEqualSigned (m a) (m b)
  | .lessUnsigned a b => .lessUnsigned (m a) (m b)
  | .lessSigned a b => .lessSigned (m a) (m b)
  | .zeroExtend size a => .zeroExtend size (m a)
  | .signExtend size a => .signExtend size (m a)
  | .move a => .move (m a)
  | .call a => .call (m a)
  | .initialized name size => .initialized name size
  | .select offset a b => .select offset (m a) (m b)
  | .load region endianess size a => .load region endianess size (m a)
  | .store region endianess size a b => .store region endianess size (m a) (m b)
  | .phi operands => .phi (operands.map m)

def isPhi : Operation V → Bool
  | .phi _ => true
  | _ => false

@[simp] theorem operands_lift (m : V → W) (op : Operation V) : (op.lift m).operands = op.operands.map m := by
  cases op <;> rfl

theorem lift_lift (first : V → W) (second : W → X) (op : Operation V) :
    (op.lift first).lift second = op.lift (second ∘ first) := by
  cases op <;> simp [lift]

theorem lift_congr {f g : V → W} (op : Operation V) (agree : ∀ v ∈ op.operands, f v = g v) : op.lift f = op.lift g := by
  cases op <;> simp_all [operands, lift]

@[simp] theorem isPhi_lift (m : V → W) (op : Operation V) : (op.lift m).isPhi = op.isPhi := by
  cases op <;> rfl

end Operation

structure Statement where
  assignee : Lvalue
  op : Operation Rvalue
  deriving DecidableEq, Repr

end Panopticon
