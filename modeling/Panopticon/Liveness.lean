import Panopticon.Function
import Panopticon.Search

/-! Variables a basic block reads before assigning them, and variables it assigns. -/

namespace Panopticon
open Library

namespace Function

/-- The vertices reachable from the entry point, in postorder. -/
def postorder (f : Function) (fuel : Nat) : Outcome ε (List Nat) :=
  TreeIterator.collectPostorder f.cflowGraph fuel f.entryPoint

end Function

namespace Liveness
variable {ε : Type}

abbrev Names := Std.ExtTreeSet String

/-- Upward exposed and killed variables of one block. -/
structure Sets where
  uevar : Names
  varkill : Names

abbrev Table := Std.ExtTreeMap Nat Sets

/-- A read of `rv`. -/
def expose (sets : Sets) : Rvalue → Sets
  | .var name _ _ _ =>
    if sets.varkill.contains name then sets else { sets with uevar := sets.uevar.insert name }
  | _ => sets

/-- A write to `assignee`. -/
def kill (sets : Sets) : Lvalue → Sets
  | .var name _ _ => { sets with varkill := sets.varkill.insert name }
  | .undefined => sets

def scanStatement (sets : Sets) (stmt : Statement) : Sets :=
  if stmt.op.isPhi then sets else kill (stmt.op.operands.foldl expose sets) stmt.assignee

def scanMnemonic (sets : Sets) (mne : Mnemonic) : Sets :=
  mne.instructions.foldl scanStatement (mne.operands.foldl expose sets)

def scanLabel (sets : Sets) : Option ControlFlowTarget → Sets
  | some (.resolved bb) => bb.mnemonics.foldl scanMnemonic sets
  | _ => sets

def scanGuard (sets : Sets) : Option Guard → Sets
  | some (.predicate flag _) => expose sets flag
  | _ => sets

def scanVertex (cfg : ControlFlowGraph) (table : Table) (vx : Nat) : Outcome ε Table := do
  let sets := scanLabel (table[vx]?.getD ⟨∅, ∅⟩) (cfg.vertexLabel vx)
  let out ← cfg.outgoing vx
  return table.insert vx ((out.map cfg.edgeLabel).foldl scanGuard sets)

def livenessSets (f : Function) (fuel : Nat) : Outcome ε Table := do
  Outcome.fold (scanVertex f.cflowGraph) ∅ (← f.postorder fuel)

abbrev LiveOut := Std.ExtTreeMap Nat Names

def resolved (cfg : ControlFlowGraph) (vx : Nat) : Bool :=
  match cfg.vertexLabel vx with
  | some (.resolved _) => true
  | _ => false

def initial (cfg : ControlFlowGraph) (ord : List Nat) : LiveOut :=
  ord.foldl (fun liveout vx => if resolved cfg vx then liveout.insert vx ∅ else liveout) ∅

/-- What is live at the start of the target of `e`. -/
def flowEdge (cfg : ControlFlowGraph) (table : Table) (liveout : LiveOut) (s : Names) (e : Nat) : Outcome ε Names := do
  let m ← .unwrap (cfg.target e)
  let sets ← .unwrap table[m]?
  let s := s.insertMany sets.uevar.toList
  if resolved cfg m then
    let live ← .unwrap liveout[m]?
    return s.insertMany (live.toList.filter fun x => !sets.varkill.contains x)
  else return s

/-- The new set of one block, with whether it is the old one. -/
def flowVertex (cfg : ControlFlowGraph) (table : Table) (liveout : LiveOut) (next : LiveOut × Bool) (vx : Nat) :
    Outcome ε (LiveOut × Bool) :=
  if resolved cfg vx then do
    let s ← Outcome.fold (flowEdge cfg table liveout) ∅ (← cfg.outgoing vx)
    let old ← .unwrap liveout[vx]?
    return (next.1.insert vx s, next.2 && old == s)
  else return next

/-- One round, `none` once the last one changed nothing. -/
def flowRound (cfg : ControlFlowGraph) (table : Table) (ord : List Nat) (state : LiveOut × Bool) :
    Outcome ε (Option (LiveOut × Bool)) :=
  if state.2 then return none
  else do
    let next ← Outcome.fold (flowVertex cfg table state.1) (∅, true) ord
    return some next

def liveness (f : Function) (fuel : Nat) : Outcome ε LiveOut := do
  let table ← livenessSets f fuel
  let ord ← f.postorder fuel
  let last ← Outcome.repeated (fun _ => flowRound f.cflowGraph table ord) fuel 0 (initial f.cflowGraph ord, false)
  return last.1

end Liveness
end Panopticon
