import Panopticon.Evaluate
import Panopticon.Library.Enumeration
import Panopticon.Library.Outcome

/-! The domain of small sets of constants that the abstract interpreter runs on. -/

namespace Panopticon
open Panopticon.Library Panopticon.Library.Word

inductive Constraint where
  | equal (rv : Rvalue)
  | lessUnsigned (rv : Rvalue)
  | lessOrEqualUnsigned (rv : Rvalue)
  | lessSigned (rv : Rvalue)
  | lessOrEqualSigned (rv : Rvalue)
  deriving DecidableEq, Repr

/-- A concrete value and its size in bits. -/
abbrev Element := UInt64 × Nat

namespace Element

def toRvalue (x : Element) : Rvalue := .constant x.1 x.2

def ofRvalue : Rvalue → Option Element
  | .constant value size => some (value, size)
  | _ => none

def Le (x y : Element) : Prop := x.1 < y.1 ∨ x.1 = y.1 ∧ x.2 ≤ y.2

instance : DecidableRel Le := fun x y => inferInstanceAs (Decidable (x.1 < y.1 ∨ x.1 = y.1 ∧ x.2 ≤ y.2))

def sort (v : List Element) : List Element := v.insertionSort Le

end Element

inductive Kset where
  | join
  | set (elements : List Element)
  | meet
  deriving DecidableEq, Repr

namespace Kset

/-- Largest cardinality before `join`. -/
def maximalCardinality : Nat := 10

def eq : Kset → Kset → Bool
  | .meet, .meet => true
  | .set a, .set b => a.length = b.length ∧ (a.zip b).all fun (x, y) => x = y
  | .join, .join => true
  | _, _ => false

def reduce (value : UInt64) (size : Nat) : Element :=
  (if size < 64 then value % bit size.toUInt64 else value, size)

def abstractValue : Rvalue → Kset
  | .constant value size => .set [reduce value size]
  | _ => .join

def abstractConstraint : Constraint → Kset
  | .equal (.constant value size) => .set [reduce value size]
  | _ => .join

/-- Inserts the results of `f`, and gives up when there are too many. -/
def collect (f : α → Option Element) : List Element → List α → Option (List Element)
  | ret, [] => some ret
  | ret, x :: rest =>
    match f x with
    | some value =>
      if maximalCardinality < (ret.insert value).length then none else collect f (ret.insert value) rest
    | none => collect f ret rest

def permute (order : Enumeration Element) (a b : Kset) (f : Rvalue → Rvalue → Rvalue) : Kset :=
  match a, b with
  | .join, _ => .join
  | _, .join => .join
  | .set a, .set b =>
    match collect (fun (x, y) => Element.ofRvalue (f (Element.toRvalue x) (Element.toRvalue y))) [] (a.product b) with
    | none => .join
    | some ret => if ret = [] then .meet else .set (Element.sort (order.list ret))
  | _, _ => .meet

def map (order : Enumeration Element) (a : Kset) (f : Rvalue → Rvalue) : Kset :=
  match a with
  | .set a =>
    let s := (a.filterMap fun x => Element.ofRvalue (f x.toRvalue)).dedup
    if maximalCardinality < s.length then .join
    else if s = [] then .meet
    else .set (Element.sort (order.list s))
  | other => other

def narrow (self a : Kset) : Kset :=
  match a with
  | .meet => .meet
  | .join => self
  | .set v =>
    match self with
    | .meet => .meet
    | .join => .set v
    | .set w => .set (w.filter (· ∈ v))

def combine (order : Enumeration Element) (self a : Kset) : Kset :=
  match self, a with
  | .join, _ => .join
  | _, .join => .join
  | a, .meet => a
  | .meet, b => b
  | .set a, .set b =>
    let ret := Element.sort (order.list (a ++ b).dedup)
    if ret = [] then .meet
    else if maximalCardinality < ret.length then .join
    else .set ret

def widen (_self s : Kset) : Kset := s

def initial : Kset := .meet

def moreExact (self a : Kset) : Bool :=
  if self.eq a then false
  else match self, a with
    | .join, _ => true
    | _, .meet => true
    | .set a, .set b => b.all (· ∈ a)
    | _, _ => false

def extract (self : Kset) (size offset : Nat) : Kset :=
  match self with
  | .join => .join
  | .meet => .meet
  | .set v => .set (v.map fun (v, _) => ((v >>> offset.toUInt64) % bit (size.toUInt64 - 1), size))

/-- The abstract version of an operation. Every set that is iterated over comes in an order of its own. -/
def execute (orders : Nat → Enumeration Element) : Operation Kset → Outcome Empty Kset
  | .and a b => .returns (permute (orders 0) a b fun a b => Panopticon.execute (.and a b))
  | .inclusiveOr a b => .returns (permute (orders 0) a b fun a b => Panopticon.execute (.inclusiveOr a b))
  | .exclusiveOr a b => .returns (permute (orders 0) a b fun a b => Panopticon.execute (.exclusiveOr a b))
  | .add a b => .returns (permute (orders 0) a b fun a b => Panopticon.execute (.add a b))
  | .subtract a b => .returns (permute (orders 0) a b fun a b => Panopticon.execute (.subtract a b))
  | .multiply a b => .returns (permute (orders 0) a b fun a b => Panopticon.execute (.multiply a b))
  | .divideSigned a b => .returns (permute (orders 0) a b fun a b => Panopticon.execute (.divideSigned a b))
  | .divideUnsigned a b => .returns (permute (orders 0) a b fun a b => Panopticon.execute (.divideUnsigned a b))
  | .modulo a b => .returns (permute (orders 0) a b fun a b => Panopticon.execute (.modulo a b))
  | .shiftRightSigned a b => .returns (permute (orders 0) a b fun a b => Panopticon.execute (.shiftRightSigned a b))
  | .shiftRightUnsigned a b =>
    .returns (permute (orders 0) a b fun a b => Panopticon.execute (.shiftRightUnsigned a b))
  | .shiftLeft a b => .returns (permute (orders 0) a b fun a b => Panopticon.execute (.shiftLeft a b))
  | .lessOrEqualSigned a b => .returns (permute (orders 0) a b fun a b => Panopticon.execute (.lessOrEqualSigned a b))
  | .lessOrEqualUnsigned a b =>
    .returns (permute (orders 0) a b fun a b => Panopticon.execute (.lessOrEqualUnsigned a b))
  | .lessSigned a b => .returns (permute (orders 0) a b fun a b => Panopticon.execute (.lessSigned a b))
  | .lessUnsigned a b => .returns (permute (orders 0) a b fun a b => Panopticon.execute (.lessUnsigned a b))
  | .equal a b => .returns (permute (orders 0) a b fun a b => Panopticon.execute (.equal a b))
  | .move a => .returns (map (orders 0) a fun a => Panopticon.execute (.move a))
  | .call a => .returns (map (orders 0) a fun a => Panopticon.execute (.call a))
  | .zeroExtend size a => .returns (map (orders 0) a fun a => Panopticon.execute (.zeroExtend size a))
  | .signExtend size a => .returns (map (orders 0) a fun a => Panopticon.execute (.signExtend size a))
  | .select offset a b => .returns (permute (orders 0) a b fun a b => Panopticon.execute (.select offset a b))
  | .initialized _ _ => .returns .meet
  | .load region endianess size a =>
    .returns (map (orders 0) a fun a => Panopticon.execute (.load region endianess size a))
  | .store region endianess size a b =>
    .returns (permute (orders 0) a b fun a b => Panopticon.execute (.store region endianess size a b))
  | .phi [] => .panics
  | .phi [a] => .returns a
  | .phi ops => .returns (ops.zipIdx.foldl (fun acc (x, i) => acc.combine (orders i) x) .meet)

end Kset

end Panopticon
