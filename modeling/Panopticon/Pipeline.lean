import Panopticon.Program
import Panopticon.Ssa

/-! The drivers of the analysis. `pipeline` disassembles one function after the other
and sends each on; `analyze` disassembles in waves, all requests of a wave in
parallel, and inserts every function into the program. -/

namespace Panopticon
open Library

namespace Function

def callAddress (stmt : Statement) : Option UInt64 :=
  match stmt.op with
  | .call (.constant value _) => some value
  | _ => none

/-- Address of every function called with a constant target. -/
def collectCallAddresses (f : Function) (blocks : Enumeration Nat) : List UInt64 :=
  (f.basicBlocks blocks).flatMap fun bb => bb.statements.filterMap callAddress

/-- Like `new`, with the identifier `uuid` in place of the fresh one. -/
def withUuid {Region : Type} (arch : Architecture Region) (orders : HashOrders) (fuel : Nat) (start : UInt64)
    (uuid : Uuid) (region : Region) (regionName : String) (name : Option String) (init : arch.Configuration)
    (fresh : Uuid) : Option (Except String Function) :=
  (new arch orders fuel start region regionName name init fresh).map (Except.map fun f => { f with uuid })

end Function

/-- What a driver is called with besides the program. -/
structure Setup (Region : Type) where
  arch : Architecture Region
  config : arch.Configuration
  region : Region
  regionName : String

/-- What the handling of one request takes from outside: the orders in which hash tables are
enumerated, the identifiers made up, and a bound on its loops. -/
structure Draw where
  orders : HashOrders
  blocks : Enumeration Nat
  conversion : SsaOrders
  insertion : Choices
  uuid : Uuid
  fuel : Nat

def Draw.canonical (fuel : Nat) : Draw :=
  ⟨.canonical, .canonical, .canonical, ⟨.canonical, .canonical, fun _ => .canonical, fun _ => 0⟩, 0, fuel⟩

/-- A placeholder of the program that names a constant address. -/
structure Init where
  entry : UInt64
  name : Option String
  uuid : Uuid

def CallTarget.init? : CallTarget → Option Init
  | .todo (.constant entry _) name uuid => some ⟨entry, name, uuid⟩
  | _ => none

namespace Program
variable {ε : Type}

def inits (program : Program) (vertices : Enumeration Nat) : List Init :=
  ((program.callGraph.vertices vertices).filterMap program.callGraph.vertexLabel).filterMap CallTarget.init?

def findFunction (g : CallGraph) (entry : UInt64) : List Nat → Outcome ε (Option (Nat × Function))
  | [] => return none
  | v :: rest => do
    match g.vertexLabel v with
    | some (.concrete f) => if (← f.start) = entry then return some (v, f) else findFunction g entry rest
    | _ => findFunction g entry rest

/-- Adds an alias to the function at `entry`; panics when there is none. -/
def addAlias (vertices : Enumeration Nat) (program : Program) (entry : UInt64) (name : String) : Outcome ε Program := do
  let (v, f) ← .unwrap (← findFunction program.callGraph entry (program.callGraph.vertices vertices))
  return { program with
    callGraph := program.callGraph.setVertexLabel v (.concrete { f with aliases := f.aliases ++ [name] }) }

end Program

/-- What a function is disassembled for. -/
inductive Request where
  | todo (init : Init)
  | call (address : UInt64)

namespace Request

def entry : Request → UInt64
  | .todo init => init.entry
  | .call address => address

/-- The call of `Function::with_uuid` or `Function::new` that a request leads to. -/
def disassemble {Region : Type} (setup : Setup Region) (draw : Draw) : Request → Option (Except String Function)
  | .todo init =>
    Function.withUuid setup.arch draw.orders draw.fuel init.entry init.uuid setup.region setup.regionName init.name
      setup.config draw.uuid
  | .call address =>
    Function.new setup.arch draw.orders draw.fuel address setup.region setup.regionName none setup.config draw.uuid

end Request

/-- The function as `ssa_convertion` leaves it, whether that succeeds or fails. -/
def convert (draw : Draw) (f : Function) : Outcome Empty Function :=
  match Ssa.ssaConvertion draw.conversion draw.fuel f with
  | .returns (f, _) => return f
  | .fails failure => return { f with cflowGraph := failure.cfg }
  | .panics => .panics
  | .exhausted => .exhausted

/-- Variables of the thread. `sent` is what has gone into the channel, which keeps the order and whose receiver
is there to the end; `turn` counts the requests and `alive` is lost when one panics or does not come back. -/
structure Pipeline where
  finishedFunctions : Std.ExtTreeSet UInt64
  targets : List UInt64
  sent : List Function
  turn : Nat
  alive : Bool

namespace Pipeline
variable {Region : Type} (setup : Setup Region) (draws : Nat → Draw)

def handle (pipe : Pipeline) (request : Request) : Pipeline :=
  let draw := draws pipe.turn
  let pipe := { pipe with
    finishedFunctions := pipe.finishedFunctions.insert request.entry
    turn := pipe.turn + 1 }
  match request.disassemble setup draw with
  | none => { pipe with alive := false }
  | some (.error _) => pipe
  | some (.ok f) =>
    let pipe := { pipe with targets := pipe.targets ++ f.collectCallAddresses draw.blocks }
    match convert draw f with
    | .returns f => { pipe with sent := pipe.sent ++ [f] }
    | _ => { pipe with alive := false }

def first (pipe : Pipeline) (init : Init) : Pipeline :=
  if pipe.alive then pipe.handle setup draws (.todo init) else pipe

def follow (pipe : Pipeline) (address : UInt64) : Pipeline :=
  if pipe.alive && !pipe.finishedFunctions.contains address then pipe.handle setup draws (.call address) else pipe

/-- At most `rounds` turns of the outer loop. -/
def drain (pipe : Pipeline) : (rounds : Nat) → Pipeline
  | 0 => pipe
  | rounds + 1 =>
    if pipe.alive && !pipe.targets.isEmpty then
      drain (pipe.targets.foldl (follow setup draws) { pipe with targets := [] }) rounds
    else pipe

def Ended (pipe : Pipeline) : Prop := pipe.alive = true ∧ pipe.targets = []

end Pipeline

def pipeline {Region : Type} (setup : Setup Region) (draws : Nat → Draw) (vertices : Enumeration Nat) (rounds : Nat)
    (program : Program) : Pipeline :=
  ((program.inits vertices).foldl (Pipeline.first setup draws) ⟨∅, [], [], 0, true⟩).drain setup draws rounds

/-- An entry of the map of attempts. `upsert` of a `CHashMap` locks the entry while its closure runs: others that
need the entry wait, and see it filled as the closure left it, or still absent if the closure panicked. -/
inductive Attempt where
  | running
  | succeeded
  | failed
  deriving DecidableEq, Repr

/-- How far a job has come. A job that panics has `crashed` and gives its lock back, one that does
not come back is `hung` and keeps it. -/
inductive Stage where
  | waiting
  | recording (f : Function) (pending : List UInt64)
  | finished
  | crashed
  | hung

structure Job where
  request : Request
  draw : Draw
  stage : Stage

def Job.isFinished (job : Job) : Bool :=
  match job.stage with
  | .finished => true
  | _ => false

/-- The variables all jobs share. `disassembled` lists the addresses for which `Function::with_uuid`
or `Function::new` has been called, and `inserted` the functions passed to `Program::insert`; the
program itself keeps neither. -/
structure Shared where
  program : Program
  attempts : Std.ExtTreeMap UInt64 Attempt
  targets : Std.ExtTreeSet UInt64
  disassembled : List UInt64
  inserted : List Function

namespace Shared
variable {Region : Type} (setup : Setup Region)

/-- The update closure: the first wave records an alias, later waves have nothing to do. -/
def again (shared : Shared) (draw : Draw) : Request → Outcome Empty Shared
  | .todo init => do
    let name := init.name.getD (Function.defaultName init.entry)
    let program ← shared.program.addAlias draw.insertion.vertices init.entry name
    return { shared with program }
  | .call _ => return shared

/-- What `upsert` does with a new key, up to the end of the disassembly. -/
def begin (shared : Shared) (job : Job) : Shared × Stage :=
  let entry := job.request.entry
  let shared := { shared with disassembled := shared.disassembled ++ [entry] }
  match job.request.disassemble setup job.draw with
  | none => ({ shared with attempts := shared.attempts.insert entry .running }, .hung)
  | some (.error _) => ({ shared with attempts := shared.attempts.insert entry .failed }, .finished)
  | some (.ok f) =>
    ({ shared with attempts := shared.attempts.insert entry .running },
      .recording f (f.collectCallAddresses job.draw.blocks))

/-- The entry was locked and stays absent when the closure that was to fill it panics. -/
def unlock (shared : Shared) (job : Job) : Shared :=
  { shared with attempts := shared.attempts.erase job.request.entry }

/-- The rest of the insert closure once all targets are recorded. -/
def finish (shared : Shared) (job : Job) (f : Function) : Shared × Stage :=
  match convert job.draw f with
  | .returns f =>
    match (shared.program.insert job.draw.insertion f : Outcome Empty _) with
    | .returns (program, _) =>
      ({ shared with
          program
          attempts := shared.attempts.insert job.request.entry .succeeded
          inserted := shared.inserted ++ [f] }, .finished)
    | _ => (shared.unlock job, .crashed)
  | .exhausted => (shared, .hung)
  | _ => (shared.unlock job, .crashed)

def step (shared : Shared) (job : Job) : Shared × Stage :=
  match job.stage with
  | .waiting =>
    match shared.attempts[job.request.entry]? with
    | none => shared.begin setup job
    | some .running => (shared, .waiting)
    | some .failed => (shared, .finished)
    | some .succeeded =>
      match shared.again job.draw job.request with
      | .returns shared => (shared, .finished)
      | _ => (shared, .crashed)
  | .recording f (address :: pending) =>
    ({ shared with targets := shared.targets.insert address }, .recording f pending)
  | .recording f [] => shared.finish job f
  | stage => (shared, stage)

end Shared

structure Analysis where
  shared : Shared
  jobs : List Job

/-- What one wave takes from outside: the order of its targets, what its jobs draw, and the interleaving, as the list
of the jobs that take the next step. The parallel loop of rayon starts every job once and ends when all of them have. -/
structure Interleaving where
  order : Enumeration UInt64
  draws : Nat → Draw
  schedule : List Nat

namespace Analysis
variable {Region : Type} (setup : Setup Region)

/-- Lets job `i` take its next step. -/
def advance (state : Analysis) (i : Nat) : Analysis :=
  match state.jobs[i]? with
  | none => state
  | some job =>
    let (shared, stage) := state.shared.step setup job
    { shared, jobs := state.jobs.set i { job with stage } }

def launch (draws : Nat → Draw) (requests : List Request) : List Job :=
  requests.mapIdx fun i request => ⟨request, draws i, .waiting⟩

def nextWave (wave : Interleaving) (state : Analysis) : Analysis where
  shared := { state.shared with targets := ∅ }
  jobs := launch wave.draws ((wave.order.list state.shared.targets.toList).map .call)

/-- Runs wave after wave, at most `rounds` of them. -/
def waves (plan : Nat → Interleaving) (state : Analysis) : (rounds n : Nat) → Analysis
  | 0, _ => state
  | rounds + 1, n =>
    let state := (plan n).schedule.foldl (advance setup) state
    if state.jobs.all Job.isFinished && !state.shared.targets.isEmpty then
      waves plan (nextWave (plan (n + 1)) state) rounds (n + 1)
    else state

def start (vertices : Enumeration Nat) (draws : Nat → Draw) (program : Program) : Analysis where
  shared := ⟨program, ∅, ∅, [], []⟩
  jobs := launch draws ((program.inits vertices).map .todo)

def Ended (state : Analysis) : Prop := state.jobs.all Job.isFinished = true ∧ state.shared.targets.isEmpty = true

end Analysis

/-- The analysis up to the last wave; what `analyze` then does with the names of stubs is left out. -/
def analyze {Region : Type} (setup : Setup Region) (vertices : Enumeration Nat) (plan : Nat → Interleaving)
    (rounds : Nat) (program : Program) : Analysis :=
  (Analysis.start vertices (plan 0).draws program).waves setup plan rounds 0

end Panopticon
