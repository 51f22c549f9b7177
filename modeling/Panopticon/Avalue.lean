import Panopticon.Kset

/-! The interface of the abstract domains. -/

namespace Panopticon
open Panopticon.Library

/-- A program point is a unique RREIL instruction inside a function. -/
structure ProgramPoint where
  address : UInt64
  position : Nat
  deriving DecidableEq, Repr

namespace ProgramPoint

def Before (p q : ProgramPoint) : Prop := p.address < q.address ∨ p.address = q.address ∧ p.position < q.position

instance : DecidableRel Before := fun p q =>
  inferInstanceAs (Decidable (p.address < q.address ∨ p.address = q.address ∧ p.position < q.position))

def max (p q : ProgramPoint) : ProgramPoint := if q.Before p then p else q

def latest : List ProgramPoint → Option ProgramPoint
  | [] => none
  | p :: rest => some (rest.foldl max p)

end ProgramPoint

/-- Abstract domain. Models both under- and over-approximation. -/
structure Avalue (A : Type) where
  abstractValue : Rvalue → A
  abstractConstraint : Constraint → A
  execute : ProgramPoint → Operation A → Outcome Empty A
  narrow : A → A → A
  widen : A → A → A
  combine : A → A → A
  moreExact : A → A → Bool
  initial : A
  extract : A → Nat → Nat → A

/-- Small sets as a domain. Whatever is iterated over comes in the given order. -/
def Kset.domain (order : Enumeration Element) : Avalue Kset where
  abstractValue := Kset.abstractValue
  abstractConstraint := Kset.abstractConstraint
  execute _ op := Kset.execute (fun _ => order) op
  narrow := Kset.narrow
  widen := Kset.widen
  combine := Kset.combine order
  moreExact := Kset.moreExact
  initial := Kset.initial
  extract := Kset.extract

end Panopticon
