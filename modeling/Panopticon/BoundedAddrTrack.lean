import Panopticon.Avalue

/-! Bounded address tracking: constants relative to a register. -/

namespace Panopticon
open Panopticon.Library Panopticon.Library.Word

/-- A register and its version. None stands for the global region. -/
abbrev Pointed := Option (String × Nat)

inductive BoundedAddrTrack where
  | join
  | region (region : Pointed)
  | offset (region : Pointed) (offset : UInt64) (offsetSize : Nat)
  | meet
  deriving DecidableEq, Repr

namespace BoundedAddrTrack

def versionLimit : Nat := 10

/-- The result of an operation on constants, relative to a region. -/
def relative (region : Pointed) : Rvalue → BoundedAddrTrack
  | .constant value size => .offset region value size
  | _ => .join

def abstractValue (v : Rvalue) : BoundedAddrTrack := relative none v

def abstractConstraint : Constraint → BoundedAddrTrack
  | .equal rv => relative none rv
  | _ => .join

def addrtrackOp (t : Rvalue → Rvalue → Operation Rvalue) (r1 r2 : Pointed) (a b : Rvalue) : BoundedAddrTrack :=
  match r1.or r2 with
  | some (rx, verx) =>
    if verx < versionLimit then relative (some (rx, verx + 1)) (Panopticon.execute (t a b)) else .join
  | none => .join

def evalOp (t : Rvalue → Rvalue → Operation Rvalue) : BoundedAddrTrack → BoundedAddrTrack → BoundedAddrTrack
  | .offset none val1 sz1, .offset none val2 sz2 =>
    relative none (Panopticon.execute (t (.constant val1 sz1) (.constant val2 sz2)))
  | .offset r1 val1 sz1, .offset r2 val2 sz2 => addrtrackOp t r1 r2 (.constant val1 sz1) (.constant val2 sz2)
  | _, _ => .join

def combine (self a : BoundedAddrTrack) : BoundedAddrTrack :=
  if a = self then a
  else match self, a with
    | .join, _ => .join
    | _, .join => .join
    | .region a, .region b => if a = b then .region a else .join
    | .offset a _ _, .region b => if a = b then .region a else .join
    | .region a, .offset b _ _ => if a = b then .region a else .join
    | .offset a _ _, .offset b _ _ => if a = b then .region a else .join
    | .meet, b => b
    | a, .meet => a

def execute : Operation BoundedAddrTrack → Outcome Empty BoundedAddrTrack
  | .and a b => .returns (evalOp .and a b)
  | .inclusiveOr a b => .returns (evalOp .inclusiveOr a b)
  | .exclusiveOr a b => .returns (evalOp .exclusiveOr a b)
  -- a sum keeps its version
  | .add (.offset r1 val1 sz1) (.offset r2 val2 sz2) =>
    .returns (relative (r1.or r2) (Panopticon.execute (.add (.constant val1 sz1) (.constant val2 sz2))))
  | .subtract a b => .returns (evalOp .subtract a b)
  | .multiply a b => .returns (evalOp .multiply a b)
  | .divideUnsigned a b => .returns (evalOp .divideUnsigned a b)
  | .divideSigned a b => .returns (evalOp .divideSigned a b)
  | .modulo a b => .returns (evalOp .modulo a b)
  | .shiftLeft a b => .returns (evalOp .shiftLeft a b)
  | .shiftRightUnsigned a b => .returns (evalOp .shiftRightUnsigned a b)
  | .shiftRightSigned a b => .returns (evalOp .shiftRightSigned a b)
  | .lessOrEqualSigned a b => .returns (evalOp .lessOrEqualSigned a b)
  | .lessOrEqualUnsigned a b => .returns (evalOp .lessOrEqualUnsigned a b)
  | .lessUnsigned a b => .returns (evalOp .lessUnsigned a b)
  | .lessSigned a b => .returns (evalOp .lessSigned a b)
  | .equal a b => .returns (evalOp .equal a b)
  | .move a => .returns a
  | .zeroExtend sz (.offset r1 val1 sz1) =>
    .returns (relative r1 (Panopticon.execute (.zeroExtend sz (.constant val1 sz1))))
  | .signExtend sz (.offset r1 val1 sz1) =>
    .returns (relative r1 (Panopticon.execute (.signExtend sz (.constant val1 sz1))))
  | .select off (.offset none val1 sz1) (.offset none val2 sz2) =>
    .returns (relative none (Panopticon.execute (.select off (.constant val1 sz1) (.constant val2 sz2))))
  | .phi [] => .panics
  | .phi [a] => .returns a
  | .phi ops => .returns (ops.foldl combine .meet)
  | _ => .returns .join

def narrow (_self a : BoundedAddrTrack) : BoundedAddrTrack := a

def widen (_self s : BoundedAddrTrack) : BoundedAddrTrack := s

def initial : BoundedAddrTrack := .meet

def moreExact (self a : BoundedAddrTrack) : Bool :=
  if self = a then false
  else match self, a with
    | .join, _ => false
    | _, .join => true
    | _, .meet => false
    | .meet, _ => true
    | .region _, .offset _ _ _ => false
    | .offset _ _ _, .region _ => true
    | .region _, .region _ => false
    | .offset _ _ _, .offset _ _ _ => false

def extract (self : BoundedAddrTrack) (size offset : Nat) : BoundedAddrTrack :=
  match self with
  | .join => .join
  | .meet => .meet
  | .region r => .region r
  | .offset r v _ => .offset r ((v >>> offset.toUInt64) % bit (size.toUInt64 - 1)) size

def domain : Avalue BoundedAddrTrack where
  abstractValue := abstractValue
  abstractConstraint := abstractConstraint
  execute _ op := execute op
  narrow := narrow
  widen := widen
  combine := combine
  moreExact := moreExact
  initial := initial
  extract := extract

end BoundedAddrTrack

end Panopticon
