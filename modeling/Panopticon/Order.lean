import Panopticon.Search

/-! Weak topological orders: the strongly connected parts of a graph in topological
order, each with a head and an order of what is left of it without the head. -/

namespace Panopticon
open Library

inductive HierarchicalOrdering (α : Type) where
  | component (items : List (HierarchicalOrdering α))
  | element (value : α)

namespace WeakTopoOrder
variable {N E ε : Type}

/-- A depth first number. `none` is `usize::MAX`, a value the counter of visits never reaches. -/
abbrev Dfn := Option Nat

/-- What `visit` and `component` share: the items found so far, the stack (top first), the depth first
numbers and the last number given away. -/
structure State where
  ret : List (HierarchicalOrdering Nat)
  stack : List Nat
  dfn : Std.ExtTreeMap Nat Dfn
  num : Nat

/-- State of the loop over the successors in `visit`. -/
structure Scan where
  head : Nat
  loop : Bool
  state : State

/-- The depth first number of a successor, or what visiting it answers. -/
def reach (visit : Nat → State → Outcome ε (Nat × State)) (state : State) (succ : Nat) : Outcome ε (Dfn × State) := do
  let d ← .unwrap state.dfn[succ]?
  if d = some 0 then
    let (head, state) ← visit succ state
    return (some head, state)
  else return (d, state)

def lower (s : Scan) (min : Dfn) (state : State) : Scan :=
  match min with
  | some min => if min ≤ s.head then ⟨min, true, state⟩ else { s with state }
  | none => { s with state }

/-- One turn of the loop over the successors in `visit`. -/
def scan (g : AdjacencyList N E) (visit : Nat → State → Outcome ε (Nat × State)) (s : Scan) (e : Nat) : Outcome ε Scan := do
  let succ ← .unwrap (g.target e)
  let (min, state) ← reach visit s.state succ
  return lower s min state

/-- Takes the stack down to `vx` and makes what was above it unvisited again. -/
def unstack (vx : Nat) : List Nat → Std.ExtTreeMap Nat Dfn → Outcome ε (List Nat × Std.ExtTreeMap Nat Dfn)
  | [], _ => .panics
  | element :: stack, dfn =>
    if element ≠ vx then unstack vx stack (dfn.insert element (some 0)) else return (stack, dfn)

/-- Visits one successor of the head of a component if it is unvisited. -/
def descend (g : AdjacencyList N E) (visit : Nat → State → Outcome ε (Nat × State)) (s : State) (e : Nat) :
    Outcome ε State := do
  let succ ← .unwrap (g.target e)
  let d ← .unwrap s.dfn[succ]?
  if d = some 0 then return (← visit succ s).2 else return s

def component (g : AdjacencyList N E) (visit : Nat → State → Outcome ε (Nat × State)) (vx : Nat) (s : State) :
    Outcome ε (HierarchicalOrdering Nat × State) := do
  let out ← g.outgoing vx
  let last ← Outcome.fold (descend g visit) { s with ret := [] } out
  return (.component (.element vx :: last.ret), { last with ret := s.ret })

/-- What `visit` does with `vx` once all its successors have been seen. -/
def finish (g : AdjacencyList N E) (visit : Nat → State → Outcome ε (Nat × State)) (vx : Nat) (s : Scan) :
    Outcome ε (Nat × State) := do
  let d ← .unwrap s.state.dfn[vx]?
  if some s.head = d then
    let dfn := s.state.dfn.insert vx none
    if s.loop then
      let (stack, dfn) ← unstack vx s.state.stack dfn
      let (item, state) ← component g visit vx { s.state with stack, dfn }
      return (s.head, { state with ret := item :: state.ret })
    else
      match s.state.stack with
      | [] => .panics
      | _ :: stack => return (s.head, { s.state with ret := .element vx :: s.state.ret, stack, dfn })
  else return (s.head, s.state)

def visit (g : AdjacencyList N E) : (fuel : Nat) → Nat → State → Outcome ε (Nat × State)
  | 0, _, _ => .exhausted
  | fuel + 1, vx, s => do
    let num := s.num + 1
    let s := { s with stack := vx :: s.stack, num, dfn := s.dfn.insert vx (some num) }
    let out ← g.outgoing vx
    let last ← Outcome.fold (scan g (visit g fuel)) ⟨num, false, s⟩ out
    finish g (visit g fuel) vx last

def initial (g : AdjacencyList N E) : State := ⟨[], [], g.vertexLabels.map fun _ _ => some 0, 0⟩

end WeakTopoOrder

def weakTopoOrder {N E ε : Type} (g : AdjacencyList N E) (fuel root : Nat) : Outcome ε (HierarchicalOrdering Nat) := do
  let (_, s) ← WeakTopoOrder.visit g fuel root (WeakTopoOrder.initial g)
  return .component s.ret

end Panopticon
