import Panopticon.Avalue

/-! A domain over a child domain that infers its widening points. -/

namespace Panopticon
open Panopticon.Library

structure Widening (A : Type) where
  value : A
  point : Option ProgramPoint
  deriving DecidableEq, Repr

namespace Widening
variable (dom : Avalue A)

def abstractValue (v : Rvalue) : Widening A := ⟨dom.abstractValue v, none⟩

def abstractConstraint (c : Constraint) : Widening A := ⟨dom.abstractConstraint c, none⟩

/-- Whether an operand was computed after the point where it is used. -/
def widens (pp : ProgramPoint) (ops : List (Widening A)) : Bool :=
  match ProgramPoint.latest (ops.map fun x => x.point.getD pp) with
  | some point => pp.Before point
  | none => false

def execute (pp : ProgramPoint) : Operation (Widening A) → Outcome Empty (Widening A)
  | .phi [] => .panics
  | .phi [op] => .returns ⟨op.value, some pp⟩
  | .phi ops =>
    let step := if widens pp ops then dom.widen else dom.combine
    .returns ⟨(ops.map (·.value)).foldl step dom.initial, some pp⟩
  | op => do
    let value ← dom.execute pp (op.lift (·.value))
    return ⟨value, some pp⟩

def widen (self s : Widening A) : Widening A := ⟨dom.widen self.value s.value, self.point⟩

def combine (self s : Widening A) : Widening A := ⟨dom.combine self.value s.value, self.point⟩

def narrow (self _a : Widening A) : Widening A := self

def initial : Widening A := ⟨dom.initial, none⟩

def moreExact (self a : Widening A) : Bool := dom.moreExact self.value a.value

def extract (self : Widening A) (size offset : Nat) : Widening A := ⟨dom.extract self.value size offset, self.point⟩

def domain : Avalue (Widening A) where
  abstractValue := abstractValue dom
  abstractConstraint := abstractConstraint dom
  execute := execute dom
  narrow := narrow
  widen := widen dom
  combine := combine dom
  moreExact := moreExact dom
  initial := initial dom
  extract := extract dom

end Widening

end Panopticon
