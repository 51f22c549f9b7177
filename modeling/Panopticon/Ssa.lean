import Panopticon.Dominator
import Panopticon.Liveness

/-! Conversion of a function into semi-pruned SSA form: an `__init` mnemonic in the
entry block, `__phi` mnemonics at the iterated dominance frontiers of the
assignments, and a walk over the dominator tree that numbers all versions. -/

namespace Panopticon
open Library

/-- The orders in which the hash tables met during one conversion are enumerated. -/
structure SsaOrders where
  vertices : Enumeration Nat
  edges : Enumeration Nat
  globals : Enumeration String
  worklist : String → Nat → Enumeration Nat
  idom : Enumeration (Nat × Nat)

def SsaOrders.canonical : SsaOrders := ⟨.canonical, .canonical, .canonical, fun _ _ => .canonical, .canonical⟩

namespace Ssa

/-- An error together with the graph it leaves behind. -/
structure Failure where
  message : String
  cfg : ControlFlowGraph

abbrev Lengths := Std.ExtTreeMap String Nat

def setLen (ret : Lengths) : Rvalue → Lengths
  | .var name _ _ size => ret.insert name (max (ret[name]?.getD 0) size)
  | _ => ret

def checkStatement (ret : Lengths) (instr : Statement) : Except String Lengths :=
  match instr.op.operands with
  | [] => .error "Operation w/o arguments"
  | ops => .ok (setLen (ops.foldl setLen ret) instr.assignee.toRvalue)

def checkMnemonic (ret : Lengths) (mne : Mnemonic) : Except String Lengths :=
  mne.instructions.foldlM checkStatement (mne.operands.foldl setLen ret)

def checkVertex (cfg : ControlFlowGraph) (ret : Lengths) (vx : Nat) : Except String Lengths :=
  match cfg.vertexLabel vx with
  | some (.resolved bb) => bb.mnemonics.foldlM checkMnemonic ret
  | _ => .ok ret

def checkEdge (cfg : ControlFlowGraph) (ret : Lengths) (ed : Nat) : Lengths :=
  match cfg.edgeLabel ed with
  | some (.predicate flag _) => setLen ret flag
  | _ => ret

def typeCheck (orders : SsaOrders) (cfg : ControlFlowGraph) : Except String Lengths := do
  let ret ← (cfg.vertices orders.vertices).foldlM (checkVertex cfg) ∅
  return (cfg.edgeList orders.edges).foldl (checkEdge cfg) ret

abbrev Usage := Std.ExtTreeMap String (Std.ExtTreeSet Nat)

/-- Records that the block at `vx` assigns the names in `vk`. -/
def addUsage (usage : Usage) (vx : Nat) (vk : Liveness.Names) : Usage :=
  vk.toList.foldl (fun usage v => usage.insert v ((usage[v]?.getD ∅).insert vx)) usage

/-- Names some block reads before assigning them, and the blocks that assign each name.
Both are filled by insertions only, so the order in which the tables are read is immaterial. -/
def globalNames (f : Function) (fuel : Nat) : Outcome ε (Liveness.Names × Usage) := do
  let table ← Liveness.livenessSets f fuel
  let globals := table.toList.foldl (fun globals entry => globals.insertMany entry.2.uevar.toList) ∅
  let usage := table.toList.foldl (fun usage entry => addUsage usage entry.1 entry.2.varkill) ∅
  return (globals, usage)

def lengthOf (lens : Lengths) (name : String) : Except String Nat :=
  match lens[name]? with
  | some len => .ok len
  | none => .error ("No length for variable " ++ name)

def initStatement (lens : Lengths) (name : String) : Except String Statement :=
  (lengthOf lens name).map fun len => ⟨.var name none len, .move .undefined⟩

/-- A mnemonic of the conversion's own at `pos`. -/
def pseudoMnemonic (pos : UInt64) (opcode : String) (instructions : List Statement) : Mnemonic where
  area := ⟨pos, pos⟩
  opcode := opcode
  operands := []
  instructions := instructions
  formatString := []

def insertMnemonic (bb : BasicBlock) (mne : Mnemonic) : BasicBlock := { bb with mnemonics := mne :: bb.mnemonics }

def phiStatement (name : String) (len argNum : Nat) : Statement :=
  ⟨.var name none len, .phi (List.replicate argNum (.var name none 0 len))⟩

/-- The block of the entry point; panics when that is unresolved or failed. -/
def entryBlock (f : Function) : Outcome ε BasicBlock :=
  match f.cflowGraph.vertexLabel f.entryPoint with
  | some (.resolved bb) => return bb
  | _ => .panics

/-- Puts `__init`, which makes every global undefined, at the front of the entry block. -/
def insertInit (orders : SsaOrders) (lens : Lengths) (globals : Liveness.Names) (f : Function) :
    Outcome Failure ControlFlowGraph := do
  let bb ← entryBlock f
  match (orders.globals.list globals.toList).mapM (initStatement lens) with
  | .error message => .fails ⟨message, f.cflowGraph⟩
  | .ok instrs =>
    return f.cflowGraph.setVertexLabel f.entryPoint
      (.resolved (insertMnemonic bb (pseudoMnemonic bb.area.start "__init" instrs)))

/-- Variables of the worklist loop for one name. -/
structure Placement where
  cfg : ControlFlowGraph
  phis : List (String × Nat)
  worklist : Std.ExtTreeSet Nat

/-- Number of operands of a phi function for `v` at `d`. -/
def argNum (cfg : ControlFlowGraph) (usage : Usage) (v : String) (d : Nat) : Outcome Failure Nat := do
  let edges ← cfg.incoming d
  match usage[v]? with
  | some _ =>
    let sources ← Outcome.each (fun p => .unwrap (cfg.source p)) edges
    return sources.length
  | none => return 0

def placePhi (lens : Lengths) (usage : Usage) (v : String) (place : Placement) (d : Nat) :
    Outcome Failure Placement := do
  let arity ← argNum place.cfg usage v d
  match place.cfg.vertexLabel d with
  | some (.resolved bb) =>
    if place.phis.contains (v, d) then return place
    else
      match lengthOf lens v with
      | .error message => .fails ⟨message, place.cfg⟩
      | .ok len =>
        let mne := pseudoMnemonic bb.area.start "__phi" [phiStatement v len arity]
        return {
          cfg := place.cfg.setVertexLabel d (.resolved (insertMnemonic bb mne))
          phis := (v, d) :: place.phis
          worklist := place.worklist.insert d }
  | _ => return place

/-- One turn of the worklist loop, `none` when the worklist is empty. -/
def placeTurn (orders : SsaOrders) (lens : Lengths) (usage : Usage) (df : Dominator.Frontiers) (v : String)
    (turn : Nat) (place : Placement) : Outcome Failure (Option Placement) := do
  match (orders.worklist v turn).list place.worklist.toList with
  | [] => return none
  | w :: _ =>
    match df[w]? with
    | none => .fails ⟨"Incomplete dominance frontier set", place.cfg⟩
    | some frontiers =>
      let place := { place with worklist := place.worklist.erase w }
      return some (← Outcome.fold (placePhi lens usage v) place frontiers)

def placeName (orders : SsaOrders) (fuel : Nat) (lens : Lengths) (usage : Usage) (df : Dominator.Frontiers)
    (place : Placement) (v : String) : Outcome Failure Placement :=
  Outcome.repeated (placeTurn orders lens usage df v) fuel 0 { place with worklist := usage[v]?.getD ∅ }

def unreachableBlocks : String := "No all basic blocks are reachable from function entry point"

def phiFunctions (orders : SsaOrders) (fuel : Nat) (f : Function) : Outcome Failure Function := do
  match typeCheck orders f.cflowGraph with
  | .error message => .fails ⟨message, f.cflowGraph⟩
  | .ok lens =>
    let (globals, usage) ← globalNames f fuel
    let cfg ← insertInit orders lens globals f
    let idom ← Dominator.immediateDominator cfg fuel f.entryPoint
    if idom.size ≠ cfg.numVertices then .fails ⟨unreachableBlocks, cfg⟩
    else
      let df ← Dominator.dominanceFrontiers cfg orders.vertices fuel idom
      let place ← Outcome.fold (placeName orders fuel lens usage df) ⟨cfg, [], ∅⟩
        (orders.globals.list globals.toList)
      return { f with cflowGraph := place.cfg }

/-- Rewrites a list with a state that every element may change. -/
def accumulate (f : σ → α → σ × α) : σ → List α → σ × List α
  | state, [] => (state, [])
  | state, a :: rest =>
    let (state, b) := f state a
    let (state, bs) := accumulate f state rest
    (state, b :: bs)

/-- Next free version and versions in scope (innermost first) of every name. -/
structure Versions where
  counter : Std.ExtTreeMap String Nat
  stack : Std.ExtTreeMap String (List Nat)

def newName (vs : Versions) (n : String) : Versions × Nat :=
  let i := vs.counter[n]?.getD 0
  (⟨vs.counter.insert n (i + 1), vs.stack.insert n (i :: (vs.stack[n]?.getD []))⟩, i)

/-- Whether `stack[name]` finds an entry for the variable read. -/
def known (vs : Versions) : Rvalue → Bool
  | .var name _ _ _ => vs.stack.contains name
  | _ => true

def inScope (vs : Versions) : Rvalue → Rvalue
  | .var name _ offset size => .var name (vs.stack[name]?.bind List.head?) offset size
  | rv => rv

/-- Renames a variable read through `stack[name]`. -/
def renameRead (vs : Versions) (rv : Rvalue) : Outcome ε Rvalue :=
  if known vs rv then return inScope vs rv else .panics

def renameAssignee (vs : Versions) : Lvalue → Versions × Lvalue
  | .var name _ size =>
    let (vs, i) := newName vs name
    (vs, .var name (some i) size)
  | .undefined => (vs, .undefined)

/-- The first walk over a block numbers what its phi functions assign. -/
def numberPhi (vs : Versions) (stmt : Statement) : Versions × Statement :=
  if stmt.op.isPhi then
    let (vs, assignee) := renameAssignee vs stmt.assignee
    (vs, { stmt with assignee })
  else (vs, stmt)

def numberMnemonic (vs : Versions) (mne : Mnemonic) : Versions × Mnemonic :=
  let (vs, instructions) := accumulate numberPhi vs mne.instructions
  (vs, { mne with instructions })

def phiOutside : String := "Phi instruction outside __phi mnemonic"

def renameStatement (vs : Versions) (stmt : Statement) : Outcome ε (Versions × Statement × Option String) :=
  if stmt.op.isPhi then return (vs, stmt, some phiOutside)
  else if stmt.op.operands.all (known vs) then
    let op := stmt.op.lift (inScope vs)
    let (vs, assignee) := renameAssignee vs stmt.assignee
    return (vs, { assignee, op }, none)
  else .panics

/-- The second walk over a block renames every mnemonic but the `__phi` ones. Operands shown
by a mnemonic need no stack. -/
def renameMnemonic (vs : Versions) (mne : Mnemonic) : Outcome ε (Versions × Mnemonic × Option String) :=
  if mne.opcode = "__phi" then return (vs, mne, none)
  else do
    let operands := mne.operands.map (inScope vs)
    let (vs, instructions, stop) ← Outcome.rewrite renameStatement vs mne.instructions
    return (vs, { mne with operands, instructions }, stop)

/-- State of the walk over the dominator tree. Nothing in a phi function tells which
edge an operand belongs to, so `filled` records the edges in the order in which
their operands were filled in; the program itself keeps no such record. -/
structure Renaming where
  versions : Versions
  cfg : ControlFlowGraph
  filled : List Nat

def renameBlock (b : Nat) (st : Renaming) : Outcome Failure Renaming :=
  match st.cfg.vertexLabel b with
  | some (.resolved bb) => do
    let (vs, numbered) := accumulate numberMnemonic st.versions bb.mnemonics
    let (vs, mnemonics, stop) ← Outcome.rewrite renameMnemonic vs numbered
    let cfg := st.cfg.setVertexLabel b (.resolved { bb with mnemonics })
    match stop with
    | some message => .fails ⟨message, cfg⟩
    | none => return { st with versions := vs, cfg }
  | _ => return st

def fillOperands (vs : Versions) : List Rvalue → Outcome ε (List Rvalue)
  | [] => return []
  | .var name none offset size :: rest => do
    let rv ← renameRead vs (.var name none offset size)
    return rv :: rest
  | rv :: rest => do
    let rest ← fillOperands vs rest
    return rv :: rest

def fillStatement (vs : Versions) (stmt : Statement) : Outcome ε Statement :=
  match stmt.op with
  | .phi operands => do
    let operands ← fillOperands vs operands
    return { stmt with op := .phi operands }
  | _ => return stmt

def fillMnemonic (vs : Versions) (mne : Mnemonic) : Outcome ε Mnemonic := do
  let instructions ← Outcome.each (fillStatement vs) mne.instructions
  return { mne with instructions }

def fillTarget (vs : Versions) : ControlFlowTarget → Outcome ε ControlFlowTarget
  | .resolved bb => do
    let mnemonics ← Outcome.each (fillMnemonic vs) bb.mnemonics
    return .resolved { bb with mnemonics }
  | .unresolved rv => do
    let rv ← renameRead vs rv
    return .unresolved rv
  | .failed pos msg => return .failed pos msg

def renameGuard (vs : Versions) : Guard → Outcome ε Guard
  | .predicate flag expected => do
    let flag ← renameRead vs flag
    return .predicate flag expected
  | gu => return gu

def relabelEdge (vs : Versions) (cfg : ControlFlowGraph) (s : Nat) : Outcome ε ControlFlowGraph :=
  match cfg.edgeLabel s with
  | some gu => do
    let gu ← renameGuard vs gu
    return cfg.setEdgeLabel s gu
  | none => return cfg

def relabelTarget (vs : Versions) (cfg : ControlFlowGraph) (v : Nat) : Outcome ε ControlFlowGraph :=
  match cfg.vertexLabel v with
  | some lb => do
    let lb ← fillTarget vs lb
    return cfg.setVertexLabel v lb
  | none => return cfg

def renameEdge (st : Renaming) (s : Nat) : Outcome Failure Renaming := do
  let cfg ← relabelEdge st.versions st.cfg s
  let v ← .unwrap (cfg.target s)
  let cfg ← relabelTarget st.versions cfg v
  return { st with cfg, filled := st.filled ++ [s] }

/-- Takes the version a statement has assigned off its stack. -/
def popStatement (vs : Versions) (stmt : Statement) : Versions :=
  match stmt.assignee with
  | .var name _ _ =>
    match vs.stack[name]? with
    | some versions => { vs with stack := vs.stack.insert name versions.tail }
    | none => vs
  | .undefined => vs

def popBlock (b : Nat) (st : Renaming) : Renaming :=
  match st.cfg.vertexLabel b with
  | some (.resolved bb) => { st with versions := bb.statements.foldl popStatement st.versions }
  | _ => st

/-- The vertices `b` immediately dominates. -/
def children (orders : SsaOrders) (idom : DominatorTable) (b : Nat) : List Nat :=
  ((orders.idom.list idom.toList).filter fun entry => entry.2 == b && entry.1 != b).map Prod.fst

/-- What `rename` does with `b` before it descends. -/
def enterBlock (b : Nat) (st : Renaming) : Outcome Failure Renaming := do
  let st ← renameBlock b st
  let succ ← st.cfg.outgoing b
  Outcome.fold renameEdge st (succ.insertionSort (· ≤ ·))

def rename (orders : SsaOrders) (idom : DominatorTable) : (fuel : Nat) → Nat → Renaming → Outcome Failure Renaming
  | 0, _, _ => .exhausted
  | fuel + 1, b, st => do
    let st ← enterBlock b st
    let st ← Outcome.fold (fun st k => rename orders idom fuel k st) st (children orders idom b)
    return popBlock b st

/-- The function with all versions numbered, and the edges in the order their phi operands were filled in. -/
def renameVariables (orders : SsaOrders) (fuel : Nat) (f : Function) : Outcome Failure (Function × List Nat) := do
  let (globals, _) ← globalNames f fuel
  let idom ← Dominator.immediateDominator f.cflowGraph fuel f.entryPoint
  if idom.size ≠ f.cflowGraph.numVertices then .fails ⟨unreachableBlocks, f.cflowGraph⟩
  else
    let stack := globals.toList.foldl (fun stack name => stack.insert name []) ∅
    let st ← rename orders idom fuel f.entryPoint ⟨⟨∅, stack⟩, f.cflowGraph, []⟩
    return ({ f with cflowGraph := st.cfg }, st.filled)

/-- Converts `f` into semi-pruned SSA form. -/
def ssaConvertion (orders : SsaOrders) (fuel : Nat) (f : Function) : Outcome Failure (Function × List Nat) := do
  let f ← phiFunctions orders fuel f
  renameVariables orders fuel f

end Ssa
end Panopticon
