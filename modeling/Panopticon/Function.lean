import Panopticon.AdjacencyList
import Panopticon.BasicBlock
import Panopticon.Library.Loop
import Panopticon.Library.Multimap

/-! Functions and the recursive disassembly that recovers their control flow: a
worklist of addresses is decoded into a table of mnemonics and two tables of
jumps, from which the control flow graph is assembled. -/

namespace Panopticon
open Library

/-- Node of the function graph. -/
inductive ControlFlowTarget where
  | resolved (bb : BasicBlock)
  | unresolved (target : Rvalue)
  | failed (pos : UInt64) (msg : String)
  deriving DecidableEq, Repr

abbrev ControlFlowGraph := AdjacencyList ControlFlowTarget Guard

inductive FunctionKind where
  | regular
  | stub (name : String) (pltAddress : UInt64)
  deriving DecidableEq, Repr

abbrev Uuid := BitVec 128

namespace Uuid

private def hexDigits (count : Nat) (value : Nat) : String :=
  let digits := Nat.toDigits 16 value
  String.ofList (List.replicate (count - digits.length) '0' ++ digits)

def hyphenated (uuid : Uuid) : String :=
  let group (count shift : Nat) := hexDigits count (uuid.toNat / 16 ^ shift % 16 ^ count)
  "-".intercalate [group 8 24, group 4 20, group 4 16, group 4 12, group 12 0]

end Uuid

/-- A set of basic blocks connected by conditional jumps. -/
structure Function where
  name : String
  aliases : List String
  uuid : Uuid
  cflowGraph : ControlFlowGraph
  entryPoint : Nat
  region : String
  size : UInt64
  kind : FunctionKind

inductive MnemonicOrError where
  | mnemonic (mne : Mnemonic)
  | error (pos : UInt64) (msg : String)
  deriving DecidableEq, Repr

/-- Result of decoding at one address. -/
structure Match where
  mnemonics : List Mnemonic
  jumps : List (UInt64 × Rvalue × Guard)
  deriving DecidableEq, Repr

/-- The part of an instruction set that disassembly uses, for some type of memory regions. -/
structure Architecture (Region : Type) where
  Configuration : Type
  decode : Region → UInt64 → Configuration → Except String Match

abbrev Mnemonics := Std.ExtTreeMap UInt64 (List MnemonicOrError)
abbrev JumpTable := Std.ExtTreeMap UInt64 (List (Rvalue × Guard))

/-- The orders in which the hash tables met during one disassembly are enumerated, and how the uuid crate writes an
identifier. Only the text of an error shows the latter. -/
structure HashOrders where
  labels : Enumeration Nat
  edges : Enumeration Nat
  todo : Nat → Enumeration UInt64
  bySource : Enumeration (UInt64 × List (Rvalue × Guard))
  vertices : Enumeration Nat
  display : Uuid → String

def HashOrders.canonical : HashOrders :=
  ⟨.canonical, .canonical, fun _ => .canonical, .canonical, .canonical, Uuid.hyphenated⟩

namespace Function

/-- Fall-through jumps of one block: each mnemonic is recorded together with the jump from its predecessor. -/
def indexBlock (prev : Option UInt64) (tables : Mnemonics × JumpTable × JumpTable) :
    List Mnemonic → Mnemonics × JumpTable × JumpTable
  | [] => tables
  | mne :: rest =>
    let (mnemonics, bySource, byDestination) := tables
    let mnemonics := push mnemonics mne.area.start (.mnemonic mne)
    match prev with
    | none => indexBlock (some mne.area.start) (mnemonics, bySource, byDestination) rest
    | some prev =>
      indexBlock (some mne.area.start)
        (mnemonics, push bySource prev (.newU64 mne.area.start, .always),
          push byDestination mne.area.start (.newU64 prev, .always)) rest

def indexTarget (tables : Mnemonics × JumpTable × JumpTable) :
    ControlFlowTarget → Mnemonics × JumpTable × JumpTable
  | .resolved bb => indexBlock none tables bb.mnemonics
  | .failed pos msg => (push tables.1 pos (.error pos msg), tables.2)
  | .unresolved _ => tables

def lastOf (bb : BasicBlock) : UInt64 := (bb.mnemonics.getLast?.map (·.area.start)).getD bb.area.start

/-- One edge of the graph as entries of the two jump tables. -/
def indexEdge (jumps : JumpTable × JumpTable) (gu : Guard) (src tgt : ControlFlowTarget) :
    JumpTable × JumpTable :=
  let both (origin value : UInt64) :=
    (push jumps.1 origin (.newU64 value, gu), push jumps.2 value (.newU64 origin, gu))
  match src, tgt with
  | .resolved srcBb, .resolved tgtBb => both (lastOf srcBb) tgtBb.area.start
  | .resolved srcBb, .unresolved (.constant c _) => both (lastOf srcBb) c
  | .unresolved (.constant c _), .resolved tgtBb => both c tgtBb.area.start
  | .resolved srcBb, .unresolved r => (push jumps.1 srcBb.area.start (r, gu), jumps.2)
  | .unresolved t, .resolved tgtBb => (jumps.1, push jumps.2 tgtBb.area.start (t, gu))
  | .failed srcPos _, .resolved tgtBb => both srcPos tgtBb.area.start
  | .resolved srcBb, .failed tgtPos _ => both (lastOf srcBb) tgtPos
  | .failed srcPos _, .failed tgtPos _ => both srcPos tgtPos
  | .failed srcPos _, .unresolved (.constant c _) => both srcPos c
  | .unresolved (.constant c _), .failed tgtPos _ => both c tgtPos
  | .failed srcPos _, .unresolved r => (push jumps.1 srcPos (r, gu), jumps.2)
  | .unresolved t, .failed tgtPos _ => (jumps.1, push jumps.2 tgtPos (t, gu))
  | .unresolved _, .unresolved _ => jumps

def indexCflowGraph (orders : HashOrders) (g : ControlFlowGraph) (entry : UInt64) :
    Mnemonics × JumpTable × JumpTable :=
  let byDestination : JumpTable := (∅ : JumpTable).insert entry [(.undefined, .always)]
  let tables := ((g.vertices orders.labels).filterMap g.vertexLabel).foldl indexTarget (∅, ∅, byDestination)
  let jumps := ((g.edgeList orders.edges).filterMap g.edgeEnds).foldl
    (fun jumps edge => indexEdge jumps edge.1 edge.2.1 edge.2.2) tables.2
  (tables.1, jumps)

def otherConstant (jumps : List (Rvalue × Guard)) (addr : UInt64) : Bool :=
  jumps.any fun jump => match jump.1 with
    | .constant value _ => value != addr
    | _ => false

/-- Whether the sweep starts a new basic block between two mnemonics. -/
def newBb (bySource byDestination : JumpTable) (start : UInt64) (last mne : Mnemonic) : Bool :=
  -- if next mnemonics aren't adjacent
  last.area.stop != mne.area.start
  -- or any following jumps aren't to adjacent mnemonics
  || otherConstant (valuesAt bySource last.area.start) mne.area.start
  -- or any jumps pointing to the next that aren't from here
  || otherConstant (valuesAt byDestination mne.area.start) last.area.start
  -- or the entry point does not point here
  || mne.area.start == start

/-- State of the sweep: the mnemonics of the open block and the graph so far. -/
abbrev Sweep := List Mnemonic × ControlFlowGraph

def closeBlock (sweep : Sweep) : Sweep :=
  ([], (sweep.2.addVertex (.resolved (.fromVec sweep.1))).1)

def sweepMoe (sweep : Sweep) : MnemonicOrError → Sweep
  | .mnemonic mne => (sweep.1 ++ [mne], sweep.2)
  | .error pos msg => (sweep.1, (sweep.2.addVertex (.failed pos msg)).1)

def sweepEntry (bySource byDestination : JumpTable) (start : UInt64) (sweep : Sweep)
    (mnes : List MnemonicOrError) : Sweep :=
  let sweep := match sweep.1.getLast?, mnes.head? with
    | some last, some (.mnemonic mne) =>
      if newBb bySource byDestination start last mne then closeBlock sweep else sweep
    | _, _ => sweep
  mnes.foldl sweepMoe sweep

def sweepAll (mnemonics : Mnemonics) (bySource byDestination : JumpTable) (start : UInt64) : ControlFlowGraph :=
  let sweep := (mnemonics.toList.map Prod.snd).foldl (sweepEntry bySource byDestination start) ([], .new)
  -- last basic block
  if sweep.1.isEmpty then sweep.2 else (closeBlock sweep).2

/-- Whether a jump from `srcOff` leaves this vertex. -/
def leaves (srcOff : UInt64) : ControlFlowTarget → Bool
  | .resolved bb => (bb.mnemonics.getLast?.map fun mne => mne.area.start == srcOff).getD false
  | .unresolved (.constant v _) => v == srcOff
  | .unresolved _ => false
  | .failed pos _ => pos == srcOff

/-- Whether a jump to `tgt` enters this vertex. -/
def enters (tgt : Rvalue) : ControlFlowTarget → Bool
  | .resolved bb => match tgt with
    | .constant value _ => bb.area.start == value
    | _ => false
  | .failed pos _ => match tgt with
    | .constant value _ => pos == value
    | _ => false
  | .unresolved v => v == tgt

/-- Whether the vertex is a block covering `addr`. -/
def covers (addr : UInt64) : Option ControlFlowTarget → Bool
  | some (.resolved bb) => decide (bb.area.start ≤ addr) && decide (addr < bb.area.stop)
  | _ => false

/-- Connects one jump, adding a vertex for an end that has none. -/
def connectJump (vertices : Enumeration Nat) (srcOff : UInt64) (ret : ControlFlowGraph)
    (jump : Rvalue × Guard) : ControlFlowGraph :=
  let (tgt, gu) := jump
  match ret.findVertex vertices (leaves srcOff), ret.findVertex vertices (enters tgt) with
  | some src, some dst => (ret.addEdge gu src dst).1
  | none, some dst =>
    if covers srcOff (ret.vertexLabel dst) then ret
    else
      let (ret, vx) := ret.addVertex (.unresolved (.newU64 srcOff))
      (ret.addEdge gu vx dst).1
  | some src, none =>
    if (tgt.constant?.map fun value => covers value (ret.vertexLabel src)).getD false then ret
    else
      let (ret, vx) := ret.addVertex (.unresolved tgt)
      (ret.addEdge gu src vx).1
  | none, none => ret

def connectAll (vertices : Enumeration Nat) (ret : ControlFlowGraph)
    (bySource : List (UInt64 × List (Rvalue × Guard))) : ControlFlowGraph :=
  bySource.foldl (fun ret entry => entry.2.foldl (connectJump vertices entry.1) ret) ret

def assembleCflowGraph (orders : HashOrders) (mnemonics : Mnemonics) (bySource byDestination : JumpTable)
    (start : UInt64) : ControlFlowGraph :=
  connectAll orders.vertices (sweepAll mnemonics bySource byDestination start)
    (orders.bySource.list bySource.toList)

/-- The variables of the loop. The decoder is a black box, so `calls` records the
addresses it has been asked for; the program itself keeps no such record. -/
structure Worklist where
  mnemonics : Mnemonics
  bySource : JumpTable
  byDestination : JumpTable
  todo : Std.ExtTreeSet UInt64
  size : UInt64
  calls : List UInt64

/-- First entry of the table at or after `addr`. -/
def firstFrom (mnemonics : Mnemonics) (addr : UInt64) : Option MnemonicOrError :=
  (mnemonics.toList.find? fun entry => addr ≤ entry.1).bind fun entry => entry.2.head?

def addMnemonic (work : Worklist) (mne : Mnemonic) : Worklist :=
  { work with
    size := work.size + mne.size
    mnemonics := push work.mnemonics mne.area.start (.mnemonic mne) }

def addJump (work : Worklist) : UInt64 × Rvalue × Guard → Worklist
  | (origin, .constant c size, gu) =>
    { work with
      bySource := push work.bySource origin (.constant c size, gu)
      byDestination := push work.byDestination c (.newU64 origin, gu)
      todo := work.todo.insert c }
  | (origin, tgt, gu) => { work with bySource := push work.bySource origin (tgt, gu) }

def addError (work : Worklist) (addr : UInt64) (msg : String) : Worklist :=
  { work with mnemonics := push work.mnemonics addr (.error addr msg) }

def decodeAt (decode : UInt64 → Except String Match) (addr : UInt64) (work : Worklist) : Worklist :=
  let work := { work with calls := work.calls ++ [addr] }
  match decode addr with
  | .ok matched =>
    let work := if matched.mnemonics.isEmpty then addError work addr "Unrecognized instruction"
      else matched.mnemonics.foldl addMnemonic work
    matched.jumps.foldl addJump work
  | .error _ => addError work addr "Unrecognized instruction"

def visit (decode : UInt64 → Except String Match) (addr : UInt64) (work : Worklist) : Worklist :=
  match firstFrom work.mnemonics addr with
  | some (.mnemonic mne) =>
    if mne.area.start < addr ∧ addr < mne.area.stop then addError work addr "Jump inside instruction"
    else if mne.area.start = addr then { work with size := work.size + mne.size }
    else decodeAt decode addr work
  | some (.error pos _) => if pos = addr then work else decodeAt decode addr work
  | none => decodeAt decode addr work

/-- One turn of the loop, `none` when the worklist is empty. -/
def turn (decode : UInt64 → Except String Match) (todo : Nat → Enumeration UInt64) (n : Nat)
    (work : Worklist) : Option Worklist :=
  match (todo n).list work.todo.toList with
  | [] => none
  | addr :: _ => some (visit decode addr { work with todo := work.todo.erase addr })

/-- The constant targets of unresolved vertices, and the start. -/
def initialTodo (labels : List ControlFlowTarget) (start : UInt64) : Std.ExtTreeSet UInt64 :=
  (labels.foldl (fun todo lb => match lb with
    | .unresolved (.constant value _) => todo.insert value
    | _ => todo) (∅ : Std.ExtTreeSet UInt64)).insert start

def initialWork (orders : HashOrders) (cflowGraph : ControlFlowGraph) (start : UInt64) (size : UInt64) : Worklist :=
  let (mnemonics, bySource, byDestination) := indexCflowGraph orders cflowGraph start
  { mnemonics, bySource, byDestination, size, calls := []
    todo := initialTodo ((cflowGraph.vertices orders.labels).filterMap cflowGraph.vertexLabel) start }

/-- Whether the vertex is a non-empty block at `start`. -/
def isEntry (start : UInt64) : ControlFlowTarget → Bool
  | .resolved bb => bb.area.start == start && decide (start < bb.area.stop)
  | _ => false

/-- The graph and size after the call, and the entry point or an error. The outer
`none` stands for a loop that has not finished within `fuel` turns. -/
def disassemble (decode : UInt64 → Except String Match) (orders : HashOrders) (fuel : Nat) (start : UInt64)
    (cflowGraph : ControlFlowGraph) (size : UInt64) (name : String) (uuid : Uuid) :
    Option (ControlFlowGraph × UInt64 × Except String Nat) :=
  (loop (turn decode orders.todo) fuel 0 (initialWork orders cflowGraph start size)).map fun work =>
    let cfg := assembleCflowGraph orders work.mnemonics work.bySource work.byDestination start
    match cfg.findVertex orders.vertices (isEntry start) with
    | some entryPoint => (cfg, work.size, .ok entryPoint)
    | none => (cflowGraph, work.size, .error ("function (" ++ name ++ ") " ++ orders.display uuid ++ " has no entry point"))

section
variable {Region : Type} (arch : Architecture Region)

def defaultName (start : UInt64) : String := "func_0x" ++ String.ofList (Nat.toDigits 16 start.toNat)

def undefined (start : UInt64) (uuid : Uuid) (regionName : String) (name : Option String) : Function :=
  let (cflowGraph, entryPoint) := AdjacencyList.new.addVertex (.unresolved (.newU64 start))
  { name := name.getD (defaultName start), aliases := [], uuid, cflowGraph, entryPoint, region := regionName, size := 0
    kind := .regular }

/-- Disassembles a function starting at `start`; `uuid` is the fresh identifier drawn for it. -/
def new (orders : HashOrders) (fuel : Nat) (start : UInt64) (region : Region) (regionName : String)
    (name : Option String) (init : arch.Configuration) (uuid : Uuid) : Option (Except String Function) :=
  let cflowGraph : ControlFlowGraph := (AdjacencyList.new.addVertex (.unresolved (.newU64 start))).1
  let name := name.getD (defaultName start)
  (disassemble (arch.decode region · init) orders fuel start cflowGraph 0 name uuid).map fun
    | (cflowGraph, size, .ok entryPoint) =>
      .ok { name, aliases := [], uuid, cflowGraph, entryPoint, region := regionName, size, kind := .regular }
    | (_, _, .error e) => .error e

/-- Continues disassembling from `start` with the function's own graph. -/
def cont (orders : HashOrders) (fuel : Nat) (f : Function) (start : UInt64) (region : Region)
    (configuration : arch.Configuration) : Option (Function × Except String Unit) :=
  (disassemble (arch.decode region · configuration) orders fuel start f.cflowGraph f.size f.name f.uuid).map fun
    | (cflowGraph, size, .ok entryPoint) => ({ f with cflowGraph, size, entryPoint }, .ok ())
    | (cflowGraph, size, .error e) => ({ f with cflowGraph, size }, .error e)

end

def basicBlocks (f : Function) (order : Enumeration Nat) : List BasicBlock :=
  ((f.cflowGraph.vertices order).filterMap f.cflowGraph.vertexLabel).filterMap fun
    | .resolved bb => some bb
    | _ => none

/-- Whether `address` is contained within the function. -/
def contains (f : Function) (order : Enumeration Nat) (address : UInt64) : Bool :=
  (f.basicBlocks order).any fun bb => decide (bb.area.start ≥ address) && decide (address < bb.area.stop)

/-- The basic block that contains `a`. -/
def findBasicBlockAt (f : Function) (order : Enumeration Nat) (a : UInt64) : Option BasicBlock :=
  (f.basicBlocks order).find? fun bb => decide (bb.area.start ≤ a) && decide (bb.area.stop > a)

def len (f : Function) : UInt64 := f.size

end Function
end Panopticon
