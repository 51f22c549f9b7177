import Panopticon.Search
import Panopticon.Library.Multimap

/-! Dominators, immediate dominators and dominance frontiers, the last two after Cooper, Harvey and Kennedy. -/

namespace Panopticon
open Library

abbrev DominatorTable := Std.ExtTreeMap Nat Nat

namespace Dominator
variable {N E ε : Type}

def sortDedup (values : List Nat) : List Nat := (values.insertionSort (· ≤ ·)).dedup

/-- The distinct predecessors of `b` other than `b` itself. -/
def predecessors (g : AdjacencyList N E) (b : Nat) : Outcome ε (List Nat) := do
  let sources ← Outcome.each (fun e => .unwrap (g.source e)) (← g.incoming b)
  return sortDedup (sources.filter (· != b))

/-- Positions in the postorder; a vertex that occurs twice has its last position. -/
def positions (postorder : List Nat) : Std.ExtTreeMap Nat Nat :=
  postorder.zipIdx.foldl (fun idx entry => idx.insert entry.1 entry.2) ∅

/-- Position of the dominator recorded for the vertex at position `f`. -/
def climb (poIdx : Std.ExtTreeMap Nat Nat) (postorder : List Nat) (ret : DominatorTable) (f : Nat) :
    Outcome ε Nat := do
  let vx ← .unwrap postorder[f]?
  let dom ← .unwrap ret[vx]?
  .unwrap poIdx[dom]?

/-- Moves the lower of the two fingers. A turn is one iteration of either inner loop. -/
def moveFinger (poIdx : Std.ExtTreeMap Nat Nat) (postorder : List Nat) (ret : DominatorTable)
    (fingers : Nat × Nat) : Outcome ε (Option (Nat × Nat)) := do
  if fingers.1 < fingers.2 then
    return some (← climb poIdx postorder ret fingers.1, fingers.2)
  else if fingers.2 < fingers.1 then
    return some (fingers.1, ← climb poIdx postorder ret fingers.2)
  else return none

def intersect (fuel : Nat) (poIdx : Std.ExtTreeMap Nat Nat) (postorder : List Nat) (ret : DominatorTable)
    (b1 b2 : Nat) : Outcome ε Nat := do
  let f1 ← .unwrap poIdx[b1]?
  let f2 ← .unwrap poIdx[b2]?
  let fingers ← Outcome.repeated (fun _ => moveFinger poIdx postorder ret) fuel 0 (f1, f2)
  .unwrap postorder[fingers.1]?

/-- Meet of the processed predecessors of `b`. -/
def newIdom (g : AdjacencyList N E) (fuel : Nat) (poIdx : Std.ExtTreeMap Nat Nat) (postorder : List Nat)
    (ret : DominatorTable) (b : Nat) : Outcome ε Nat := do
  let pred ← predecessors g b
  let first ← .unwrap (pred.find? ret.contains)
  Outcome.fold (fun dom p => if ret.contains p then intersect fuel poIdx postorder ret p dom else return dom)
    first (pred.filter (· != first))

/-- Recomputes the dominator of `b`; the flag tells that nothing has changed so far. -/
def updateIdom (g : AdjacencyList N E) (fuel : Nat) (poIdx : Std.ExtTreeMap Nat Nat) (postorder : List Nat)
    (pass : DominatorTable × Bool) (b : Nat) : Outcome ε (DominatorTable × Bool) := do
  let dom ← newIdom g fuel poIdx postorder pass.1 b
  if pass.1[b]? = some dom then return pass else return (pass.1.insert b dom, false)

/-- One pass over the reverse postorder, `none` when it changed nothing. -/
def passIdom (g : AdjacencyList N E) (fuel start : Nat) (poIdx : Std.ExtTreeMap Nat Nat) (postorder : List Nat)
    (ret : DominatorTable) : Outcome ε (Option DominatorTable) := do
  let (ret, fixpoint) ← Outcome.fold (updateIdom g fuel poIdx postorder) (ret, true)
    (postorder.reverse.filter (· != start))
  return if fixpoint then none else some ret

/-- Sets of positions. A `BitSet` of the bit_set crate is a finite set of numbers whose iteration is in ascending order. -/
abbrev BitSet := Finset Nat

/-- One edge that comes in: its source's set is intersected with what there is so far. -/
def meetDom (g : AdjacencyList N E) (vertexIdx : Std.ExtTreeMap Nat Nat) (curDom : List BitSet) (myDom : Option BitSet)
    (e : Nat) : Outcome ε (Option BitSet) := do
  let source ← .unwrap (g.source e)
  let idx ← .unwrap vertexIdx[source]?
  let prev ← .unwrap curDom[idx]?
  match myDom with
  | some s => return some (s ∩ prev)
  | none => return some prev

/-- The new set of `vx` and its position. -/
def finalDom (g : AdjacencyList N E) (start : Nat) (vertexIdx : Std.ExtTreeMap Nat Nat) (curDom : List BitSet) (vx : Nat) :
    Outcome ε (Nat × BitSet) := do
  let myDom ← if vx = start then .returns none else
    Outcome.fold (meetDom g vertexIdx curDom) none (← g.incoming vx)
  let vxIdx ← .unwrap vertexIdx[vx]?
  return (vxIdx, insert vxIdx (myDom.getD ∅))

def nextDom (g : AdjacencyList N E) (start : Nat) (vertexIdx : Std.ExtTreeMap Nat Nat) (vertices : List Nat)
    (curDom : List BitSet) : Outcome ε (List BitSet) :=
  Outcome.fold (fun next vx => do
    let (vxIdx, dom) ← finalDom g start vertexIdx curDom vx
    return next.set vxIdx dom) (List.replicate vertexIdx.size ∅) vertices

/-- All dominators of every vertex, as the greatest solution. -/
def dominators (g : AdjacencyList N E) (vertices : Enumeration Nat) (entries : Enumeration (Nat × Nat)) (fuel start : Nat) :
    Outcome ε (Std.ExtTreeMap Nat (List Nat)) := do
  let vertexRidx := g.vertices vertices
  let vertexIdx := positions vertexRidx
  let curDom ← Outcome.repeated (fun _ curDom => do
    let next ← nextDom g start vertexIdx vertexRidx curDom
    return if next = curDom then none else some next) fuel 0
      (List.replicate vertexIdx.size (Finset.range vertexIdx.size))
  Outcome.fold (fun ret entry => do
    let dom ← .unwrap curDom[entry.2]?
    let res ← Outcome.each (fun a => .unwrap vertexRidx[a]?) (dom.sort (· ≤ ·))
    return ret.insert entry.1 (res.insertionSort (· ≤ ·))) ∅ (entries.list vertexIdx.toList)

def immediateDominator (g : AdjacencyList N E) (fuel start : Nat) : Outcome ε DominatorTable := do
  let postorder ← TreeIterator.collectPostorder g fuel start
  Outcome.repeated (fun _ => passIdom g fuel start (positions postorder) postorder) fuel 0
    ((∅ : DominatorTable).insert start start)

abbrev Frontiers := Std.ExtTreeMap Nat (List Nat)

/-- One step of the runner for block `b`, `none` once it has reached the dominator of `b`. -/
def runFrontier (idom : DominatorTable) (b : Nat) (state : Nat × Frontiers) : Outcome ε (Option (Nat × Frontiers)) := do
  let dom ← .unwrap idom[b]?
  if state.1 = dom then return none
  else
    let up ← .unwrap idom[state.1]?
    return some (up, push state.2 state.1 b)

def frontierBlock (g : AdjacencyList N E) (fuel : Nat) (idom : DominatorTable) (ret : Frontiers) (b : Nat) :
    Outcome ε Frontiers := do
  let pred ← predecessors g b
  if 2 ≤ pred.length then
    Outcome.fold (fun ret p => do
      let (_, ret) ← Outcome.repeated (fun _ => runFrontier idom b) fuel 0 (p, ret)
      return ret) ret pred
  else return ret

def dominanceFrontiers (g : AdjacencyList N E) (vertices : Enumeration Nat) (fuel : Nat) (idom : DominatorTable) :
    Outcome ε Frontiers := do
  let empty : Frontiers := (g.vertices vertices).foldl (fun ret v => ret.insert v []) ∅
  let ret ← Outcome.fold (frontierBlock g fuel idom) empty (g.vertices vertices)
  return ret.map fun _ blocks => sortDedup blocks

end Dominator
end Panopticon
