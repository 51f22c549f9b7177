import Panopticon.Avalue
import Panopticon.Dominator
import Panopticon.Function

/-! What the abstract interpreter reports for the end of a function. -/

namespace Panopticon
open Panopticon.Library

namespace Interpreter

/-- Pairs, first components first. -/
instance pairOrd : Ord (String × Nat) := lexOrd

/-- Values by name and size. -/
abbrev Results (A : Type) := Std.ExtTreeMap (String × Nat) A

variable {A : Type} {ε : Type}

def outDegree (cfg : ControlFlowGraph) (v : Nat) : Nat := (cfg.outEdges[v]?.getD []).length

def valueOf (dom : Avalue A) (vals : Lvalue → Option A) (x : Lvalue) : A := (vals x).getD dom.initial

def assignedNames (cfg : ControlFlowGraph) (vertices : List Nat) : Std.ExtTreeSet String :=
  vertices.foldl (fun names v =>
    match cfg.vertexLabel v with
    | some (.resolved bb) => bb.statements.foldl (fun names i =>
        match i.assignee with
        | .var name _ _ => names.insert name
        | .undefined => names) names
    | _ => names) ∅

/-- One statement of the scan through a block for `lv`. -/
def record (dom : Avalue A) (vals : Lvalue → Option A) (lv : String) (state : Bool × Results A) (i : Statement) :
    Bool × Results A :=
  match i.assignee with
  | .var name _ size =>
    if name = lv then (true, state.2.insert (name, size) (valueOf dom vals i.assignee)) else state
  | .undefined => state

/-- The scan goes through the statements of the block backwards. -/
def scan (dom : Avalue A) (vals : Lvalue → Option A) (lv : String) (bb : BasicBlock) (ret : Results A) : Bool × Results A :=
  bb.statements.reverse.foldl (record dom vals lv) (false, ret)

/-- The loop up the dominators of an exit. The block it scans is that of the exit each time. -/
def climb (dom : Avalue A) (cfg : ControlFlowGraph) (idom : DominatorTable) (vals : Lvalue → Option A) (lv : String)
    (bb : BasicBlock) : (fuel : Nat) → Nat → Results A → Outcome ε (Results A)
  | 0, _, _ => .exhausted
  | fuel + 1, v, ret =>
    let (hit, ret) := scan dom vals lv bb ret
    if hit then .returns ret
    else match idom[v]? with
      | none => .returns ret
      | some w =>
        if w = v then .returns ret
        else match cfg.vertexLabel w with
          | some (.resolved _) => climb dom cfg idom vals lv bb fuel w ret
          | _ => .returns ret

def exitValues (dom : Avalue A) (cfg : ControlFlowGraph) (idom : DominatorTable) (vals : Lvalue → Option A)
    (names : List String) (fuel : Nat) (ret : Results A) (v : Nat) : Outcome ε (Results A) :=
  if outDegree cfg v = 0 then
    match cfg.vertexLabel v with
    | some (.resolved bb) => Outcome.fold (fun ret lv => climb dom cfg idom vals lv bb fuel v ret) ret names
    | _ => .returns ret
  else .returns ret

/-- The names and values that live after the function returns. -/
def results (dom : Avalue A) (vertices : Enumeration Nat) (names : Enumeration String) (fuel : Nat) (func : Function)
    (vals : Lvalue → Option A) : Outcome ε (Results A) := do
  let cfg := func.cflowGraph
  let idom ← Dominator.immediateDominator cfg fuel func.entryPoint
  let assigned := assignedNames cfg (cfg.vertices vertices)
  Outcome.fold (exitValues dom cfg idom vals (names.list assigned.toList) fuel) ∅ (cfg.vertices vertices)

end Interpreter
end Panopticon
