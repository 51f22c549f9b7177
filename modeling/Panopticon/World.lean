import Panopticon.Region
import Panopticon.Search

/-! Worlds: regions that overlap each other, as a graph whose edges carry the parts
overlapped. -/

namespace Panopticon
open Library

abbrev RegionGraph := AdjacencyList Region Area

structure World where
  dependencies : RegionGraph
  root : Nat

/-- The parts listed and the regions visited so far. `expanded` is not in the program: it records the calls of `step`. -/
structure Projection where
  ret : List (Area × Nat)
  visited : Std.ExtTreeSet Nat
  expanded : List Nat

namespace Projection
variable {ε : Type}

/-- List the part of `v` from `last` up to `stop`, unless it is empty. -/
def push (p : Projection) (last stop v : Nat) : Projection :=
  if last < stop then { p with ret := p.ret ++ [(⟨last, stop⟩, v)] } else p

/-- One edge of the loop in `step`; `last` is where the edge before it ended. -/
def follow (regs : RegionGraph) (step : Projection → Nat → Outcome ε Projection) (v : Nat)
    (state : Nat × Projection) (e : Nat × Area) : Outcome ε (Nat × Projection) := do
  let (last, p) := state
  let nx ← .unwrap (regs.target e.1)
  let p := p.push last e.2.start v
  if p.visited.contains nx then return (e.2.stop, p)
  else return (e.2.stop, ← step { p with visited := p.visited.insert nx } nx)

/-- The inner function `step`; `fuel` bounds the depth of the recursion. -/
def step (regs : RegionGraph) : (fuel : Nat) → Projection → Nat → Outcome ε Projection
  | 0, _, _ => .exhausted
  | fuel + 1, p, v => do
    let reg ← .unwrap (regs.vertexLabel v)
    let out ← regs.outgoing v
    let es ← Outcome.each (fun e => do return (e, ← .unwrap (regs.edgeLabel e))) out
    let es := es.insertionSort fun a b => a.2.start ≤ b.2.start
    let (last, p) ← Outcome.fold (follow regs (step regs fuel) v) (0, { p with expanded := p.expanded ++ [v] }) es
    return p.push last reg.size v

end Projection

namespace World
variable {ε : Type}

def projection (world : World) (fuel : Nat) : Outcome ε Projection :=
  if 0 < world.dependencies.numVertices then Projection.step world.dependencies fuel ⟨[], ∅, []⟩ world.root
  else return ⟨[], ∅, []⟩

end World
end Panopticon
