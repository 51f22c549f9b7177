import Panopticon.AdjacencyList
import Panopticon.Library.Outcome

/-! Depth first iteration over the vertices reachable from a start vertex. -/

namespace Panopticon
open Library

namespace AdjacencyList
variable {N E ε : Type}

/-- The edges leaving `v`; panics when `v` is no vertex. -/
def outgoing (g : AdjacencyList N E) (v : Nat) : Outcome ε (List Nat) := .unwrap g.outEdges[v]?

/-- The edges entering `v`; panics when `v` is no vertex. -/
def incoming (g : AdjacencyList N E) (v : Nat) : Outcome ε (List Nat) := .unwrap g.inEdges[v]?

end AdjacencyList

inductive TraversalOrder where
  | preorder
  | postorder
  deriving DecidableEq, Repr

/-- Stack (top first), visited vertices and position of an iteration, and what it has produced. -/
structure TreeIterator where
  stack : List Nat
  seen : Std.ExtTreeSet Nat
  position : Nat
  output : List Nat

namespace TreeIterator
variable {N E ε : Type}

/-- A postorder iteration starts with the start vertex on the stack and nothing seen. -/
def postorder (start : Nat) : TreeIterator := ⟨[start], ∅, start, []⟩

def firstUnseen (g : AdjacencyList N E) (seen : Std.ExtTreeSet Nat) : List Nat → Outcome ε (Option Nat)
  | [] => return none
  | out :: rest => do
    let vx ← .unwrap (g.target out)
    if seen.contains vx then firstUnseen g seen rest else return some vx

/-- One turn of the loop in `next_postorder`: go down, or produce the position and go back to its parent. -/
def nextPostorder (g : AdjacencyList N E) (it : TreeIterator) : Outcome ε (Option TreeIterator) := do
  match ← firstUnseen g it.seen (← g.outgoing it.position) with
  | some vx =>
    return some { it with seen := it.seen.insert vx, stack := it.position :: it.stack, position := vx }
  | none =>
    match it.stack with
    | parent :: stack =>
      return some { it with stack, position := parent, output := it.output ++ [it.position] }
    | [] => return none

/-- Everything a postorder iteration from `start` produces. -/
def collectPostorder (g : AdjacencyList N E) (fuel start : Nat) : Outcome ε (List Nat) := do
  let it ← Outcome.repeated (fun _ => nextPostorder g) fuel 0 (postorder start)
  return it.output

/-- A preorder iteration starts with an empty stack and nothing seen. -/
def preorder (start : Nat) : TreeIterator := ⟨[], ∅, start, []⟩

/-- Go down from `position` to an unseen target and produce it. -/
def discover (it : TreeIterator) (position : Nat) (stack : List Nat) (vx : Nat) : TreeIterator :=
  { seen := it.seen.insert vx, stack := position :: stack, position := vx, output := it.output ++ [vx] }

/-- The loop in `next_preorder`: down to an unseen target of the position, else on from its parent. -/
def seekPreorder (g : AdjacencyList N E) (it : TreeIterator) (position : Nat) :
    List Nat → Outcome ε (Option TreeIterator)
  | [] => do
    match ← firstUnseen g it.seen (← g.outgoing position) with
    | some vx => return some (it.discover position [] vx)
    | none => return none
  | parent :: stack => do
    match ← firstUnseen g it.seen (← g.outgoing position) with
    | some vx => return some (it.discover position (parent :: stack) vx)
    | none => seekPreorder g it parent stack

/-- One call of `next_preorder`; the first one produces the start vertex. -/
def nextPreorder (g : AdjacencyList N E) (it : TreeIterator) : Outcome ε (Option TreeIterator) :=
  if it.seen.contains it.position then seekPreorder g it it.position it.stack
  else return some { it with seen := it.seen.insert it.position, output := it.output ++ [it.position] }

/-- Everything a preorder iteration from `start` produces. -/
def collectPreorder (g : AdjacencyList N E) (fuel start : Nat) : Outcome ε (List Nat) := do
  let it ← Outcome.repeated (fun _ => nextPreorder g) fuel 0 (preorder start)
  return it.output

/-- Everything an iteration from `start` produces. -/
def collect (g : AdjacencyList N E) (fuel start : Nat) : TraversalOrder → Outcome ε (List Nat)
  | .preorder => collectPreorder g fuel start
  | .postorder => collectPostorder g fuel start

end TreeIterator

inductive EdgeKind where
  | tree
  | forwardOrCross
  | backward
  deriving DecidableEq, Repr

inductive VertexEvent where
  | discovered
  | finished
  deriving DecidableEq, Repr

inductive VertexColor where
  | white
  | gray
  | black
  deriving DecidableEq, Repr

/-- A call of one of the visitors. -/
inductive Event where
  | vertex (v : Nat) (event : VertexEvent)
  | edge (e : Nat) (kind : EdgeKind)
  deriving DecidableEq, Repr

/-- The colours, and the calls of the visitors so far. -/
structure Visit where
  color : Std.ExtTreeMap Nat VertexColor
  events : List Event

namespace Visit
variable {N E ε : Type}

def mark (s : Visit) (v : Nat) (color : VertexColor) (event : VertexEvent) : Visit :=
  ⟨s.color.insert v color, s.events ++ [.vertex v event]⟩

def report (s : Visit) (e : Nat) (kind : EdgeKind) : Visit := { s with events := s.events ++ [.edge e kind] }

/-- One edge of the loop in `visit`, which visits its target when that is new. -/
def examine (g : AdjacencyList N E) (visit : Visit → Nat → Outcome ε Visit) (s : Visit) (e : Nat) : Outcome ε Visit := do
  let wx ← .unwrap (g.target e)
  match ← .unwrap s.color[wx]? with
  | .white => visit (s.report e .tree) wx
  | .gray => return s.report e .backward
  | .black => return s.report e .forwardOrCross

/-- The inner function `visit`; `fuel` bounds the depth of the recursion. -/
def visit (g : AdjacencyList N E) : (fuel : Nat) → Visit → Nat → Outcome ε Visit
  | 0, _, _ => .exhausted
  | fuel + 1, s, vx => do
    let s ← Outcome.fold (examine g (visit g fuel)) (s.mark vx .gray .discovered) (← g.outgoing vx)
    return s.mark vx .black .finished

end Visit

/-- The calls of the visitors that a visit from `start` makes. -/
def depthFirstVisit {N E ε : Type} (g : AdjacencyList N E) (vertices : Enumeration Nat) (fuel start : Nat) :
    Outcome ε (List Event) := do
  let color := (g.vertices vertices).foldl (fun color v => color.insert v .white) ∅
  let s ← Visit.visit g fuel ⟨color, []⟩ start
  return s.events

/-- The stack, top first, and the vertices that were taken from it. -/
structure Connectivity where
  stack : List Nat
  seen : Std.ExtTreeSet Nat

namespace Connectivity
variable {N E ε : Type}

/-- Targets of the edges leaving `vx`, then sources of the edges entering it. -/
def neighbours (g : AdjacencyList N E) (vx : Nat) : Outcome ε (List Nat) := do
  let out ← g.outgoing vx
  let into ← g.incoming vx
  let targets ← Outcome.each (fun e => .unwrap (g.target e)) out
  let sources ← Outcome.each (fun e => .unwrap (g.source e)) into
  return targets ++ sources

/-- One turn of the loop: take a vertex from the stack and push those next to it that have not been seen. -/
def turn (g : AdjacencyList N E) (s : Connectivity) : Outcome ε (Option Connectivity) :=
  match s.stack with
  | [] => return none
  | vx :: stack => do
    let seen := s.seen.insert vx
    let ed ← neighbours g vx
    return some ⟨ed.foldl (fun stack v => if seen.contains v then stack else v :: stack) stack, seen⟩

end Connectivity

def isConnected {N E ε : Type} (g : AdjacencyList N E) (vertices : Enumeration Nat) (fuel : Nat) : Outcome ε Bool :=
  match (g.vertices vertices).head? with
  | some s => do
    let final ← Outcome.repeated (fun _ => Connectivity.turn g) fuel 0 ⟨[s], ∅⟩
    if final.seen.size ≤ g.numVertices then return final.seen.size = g.numVertices else .panics
  | none => return true

end Panopticon
