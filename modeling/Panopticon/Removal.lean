import Panopticon.AdjacencyList
import Panopticon.Library.Outcome

/-! Removing edges and vertices from the graph store. -/

namespace Panopticon
open Library

/-- `Vec::swap_remove`: the last entry takes the place of the one removed. -/
def swapRemove (entries : List Nat) (o : Nat) : List Nat :=
  match entries.getLast? with
  | some last => (entries.set o last).dropLast
  | none => []

namespace AdjacencyList
variable {N E ε : Type}

/-- Takes `e` out of an incidence list, with whether it was there. What `swap_remove` gives back
is the entry found, so the comparison with `e` that follows it always succeeds. -/
def rmAdj (table : Std.ExtTreeMap Nat (List Nat)) (v e : Nat) : Std.ExtTreeMap Nat (List Nat) × Bool :=
  match table[v]? with
  | none => (table, false)
  | some cont =>
    match cont.findIdx? (· == e) with
    | some o => (table.insert v (swapRemove cont o), true)
    | none => (table, false)

/-- Removes an edge. The lookup of its ends panics when only its label is stored. -/
def removeEdge (g : AdjacencyList N E) (e : Nat) : Outcome ε (AdjacencyList N E × Option E) :=
  match g.edgeLabels[e]? with
  | none => return (g, none)
  | some lb => do
    let g := { g with edgeLabels := g.edgeLabels.erase e }
    let source ← .unwrap (g.source e)
    let target ← .unwrap (g.target e)
    -- the ends were there, so this removal succeeds
    let g := { g with edges := g.edges.erase e }
    let (outEdges, found) := rmAdj g.outEdges source e
    let g := { g with outEdges }
    if found then
      let (inEdges, found) := rmAdj g.inEdges target e
      return ({ g with inEdges }, if found then some lb else none)
    else return (g, none)

def removeEdges (g : AdjacencyList N E) : List Nat → Outcome ε (AdjacencyList N E × Bool)
  | [] => return (g, true)
  | e :: rest => do
    let (g, removed) ← g.removeEdge e
    if removed.isSome then removeEdges g rest else return (g, false)

/-- Removes a vertex and the edges in its lists, which are read before the first edge goes. -/
def removeVertex (g : AdjacencyList N E) (v : Nat) : Outcome ε (AdjacencyList N E × Option N) :=
  match g.vertexLabels[v]? with
  | none => return (g, none)
  | some lb => do
    let g := { g with vertexLabels := g.vertexLabels.erase v }
    let todel1 := g.inEdges[v]?.getD []
    let todel2 := g.outEdges[v]?.getD []
    let (g, removed) ← g.removeEdges todel1
    if removed then
      let (g, removed) ← g.removeEdges todel2
      if removed then
        let present := g.outEdges.contains v
        let g := { g with outEdges := g.outEdges.erase v }
        if present then
          let present := g.inEdges.contains v
          return ({ g with inEdges := g.inEdges.erase v }, if present then some lb else none)
        else return (g, none)
      else return (g, none)
    else return (g, none)

/-- A call that changes the store. -/
inductive Change (N E : Type) where
  | addVertex (lb : N)
  | addEdge (lb : E) (source target : Nat)
  | removeVertex (v : Nat)
  | removeEdge (e : Nat)

def change (g : AdjacencyList N E) : Change N E → Outcome ε (AdjacencyList N E)
  | .addVertex lb => return (g.addVertex lb).1
  | .addEdge lb source target => return (g.addEdge lb source target).1
  | .removeVertex v => do
    let (g, _) ← g.removeVertex v
    return g
  | .removeEdge e => do
    let (g, _) ← g.removeEdge e
    return g

def changes (g : AdjacencyList N E) (calls : List (Change N E)) : Outcome ε (AdjacencyList N E) :=
  Outcome.fold change g calls

end AdjacencyList
end Panopticon
