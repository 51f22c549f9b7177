import Panopticon.Function
import Panopticon.Search

/-! Programs: a graph of functions that call each other, with placeholders for
functions that have not been disassembled yet. -/

namespace Panopticon
open Library

/-- Node of the program call graph. -/
inductive CallTarget where
  | concrete (function : Function)
  | symbolic (name : String) (uuid : Uuid)
  | todo (target : Rvalue) (name : Option String) (uuid : Uuid)

def CallTarget.uuid : CallTarget → Uuid
  | .concrete function => function.uuid
  | .symbolic _ uuid => uuid
  | .todo _ _ uuid => uuid

abbrev CallGraph := AdjacencyList CallTarget Unit

namespace AdjacencyList
variable {N E ε : Type}

/-- First of the edges that enters `v`. -/
def firstInto (g : AdjacencyList N E) (v : Nat) : List Nat → Outcome ε (Option Nat)
  | [] => return none
  | e :: rest => do
    if (← .unwrap (g.target e)) = v then return some e else firstInto g v rest

/-- An edge from `u` to `v`; panics when `u` is no vertex. -/
def edge (g : AdjacencyList N E) (u v : Nat) : Outcome ε (Option Nat) := do
  firstInto g v (← g.outgoing u)

end AdjacencyList

namespace Function
variable {ε : Type}

/-- Start address of the entry block; panics when that is unresolved or failed. -/
def start (f : Function) : Outcome ε UInt64 :=
  match f.cflowGraph.vertexLabel f.entryPoint with
  | some (.resolved bb) => return bb.area.start
  | _ => .panics

def callTarget (stmt : Statement) : Option Rvalue :=
  match stmt.op with
  | .call t => some t
  | _ => none

def blockCalls : Option ControlFlowTarget → List Rvalue
  | some (.resolved bb) => bb.statements.filterMap callTarget
  | _ => []

/-- Targets of all calls, block by block in the order given. -/
def collectCalls (f : Function) (blocks : Enumeration Nat) : List Rvalue :=
  (f.cflowGraph.vertices blocks).flatMap fun v => blockCalls (f.cflowGraph.vertexLabel v)

end Function

structure Program where
  callGraph : CallGraph

/-- What one insertion takes from outside: the orders in which hash tables are enumerated, for the `n`-th call
in `calls n`, and the identifiers `Uuid::new_v4` makes up. -/
structure Choices where
  vertices : Enumeration Nat
  blocks : Enumeration Nat
  calls : Nat → Enumeration Nat
  fresh : Nat → Uuid

namespace Program
variable {ε : Type}

def empty : Program := ⟨.new⟩

/-- First vertex that stands for the call target `a`. -/
def findCallee (g : CallGraph) (a : Rvalue) : List Nat → Outcome ε (Option Nat)
  | [] => return none
  | w :: rest => do
    match g.vertexLabel w, a with
    | some (.concrete function), .constant value _ =>
      if value = (← function.start) then return some w else findCallee g a rest
    | some (.todo target _ _), a => if target = a then return some w else findCallee g a rest
    | _, a => findCallee g a rest

/-- Variables of the loop over the calls of one function. -/
structure Linking where
  callGraph : CallGraph
  otherFuns : List Nat
  todos : List Uuid
  turn : Nat

def linkCall (choices : Choices) (newVx : Nat) (link : Linking) (a : Rvalue) : Outcome ε Linking := do
  match ← findCallee link.callGraph a (link.callGraph.vertices (choices.calls link.turn)) with
  | some w => return { link with otherFuns := link.otherFuns ++ [w], turn := link.turn + 1 }
  | none =>
    let uu := choices.fresh link.todos.length
    let (callGraph, v) := link.callGraph.addVertex (.todo a none uu)
    let callGraph := (callGraph.addEdge () newVx v).1
    return { link with callGraph, todos := link.todos ++ [uu], turn := link.turn + 1 }

def linkFunction (newVx : Nat) (callGraph : CallGraph) (otherFun : Nat) : Outcome ε CallGraph := do
  if (← callGraph.edge newVx otherFun).isNone then return (callGraph.addEdge () newVx otherFun).1
  else return callGraph

/-- The vertex of a new function: the one with its identifier, or another one. -/
def placeFunction (choices : Choices) (callGraph : CallGraph) (function : Function) : CallGraph × Nat :=
  match callGraph.findVertex choices.vertices (·.uuid == function.uuid) with
  | some vx => (callGraph.setVertexLabel vx (.concrete function), vx)
  | none => callGraph.addVertex (.concrete function)

/-- Puts `function` into the call graph and answers with the identifiers of the new placeholders. -/
def insert (choices : Choices) (program : Program) (function : Function) : Outcome ε (Program × List Uuid) := do
  let calls := function.collectCalls choices.blocks
  let (callGraph, newVx) := placeFunction choices program.callGraph function
  let link ← Outcome.fold (linkCall choices newVx) ⟨callGraph, [], [], 0⟩ calls
  let callGraph ← Outcome.fold (linkFunction newVx) link.callGraph link.otherFuns
  return ({ program with callGraph }, link.todos)

def insertAll (program : Program) (calls : List (Choices × Function)) : Outcome ε Program :=
  Outcome.fold (fun program call => do return (← insert call.1 program call.2).1) program calls

end Program
end Panopticon
