import Panopticon.Proofs.Conversion
import Panopticon.Proofs.Recovery

/-! The addresses the drivers of the analysis come across, and what is disassembled there. -/

open Panopticon.Function (Worklist turn assembleCflowGraph isEntry callAddress callTarget blockCalls)

namespace Panopticon.Proofs.Discovery
open Library AdjacencyList Worklist Layout Recovery Proofs.Insertion Proofs.Conversion

variable {Region : Type} {setup : Setup Region}

theorem mem_collectCallAddresses {f : Function} {blocks : Enumeration Nat} {c : UInt64} :
    c ∈ f.collectCallAddresses blocks ↔ Calls f c := by
  have address (stmt : Statement) : callAddress stmt = some c ↔
      ∃ size, callTarget stmt = some (.constant c size) := by
    unfold callAddress callTarget
    split
    · next value size op => simp [op]
    · next other =>
      simp only [reduceCtorEq, false_iff, not_exists]
      intro size called
      split at called
      · next target op =>
        cases called
        exact other c size op
      · cases called
  simp only [Function.collectCallAddresses, Function.basicBlocks, List.mem_flatMap, List.mem_filterMap, address,
    mem_vertices, Calls, Targets]
  constructor
  · intro holds
    obtain ⟨bb, ⟨lb, ⟨v, _, label⟩, block⟩, stmt, inside, size, called⟩ := holds
    cases lb with
    | resolved bb' =>
      cases block
      exact ⟨size, v, by rw [label]; exact List.mem_filterMap.mpr ⟨stmt, inside, called⟩⟩
    | unresolved target => cases block
    | failed pos msg => cases block
  · intro holds
    obtain ⟨size, v, inside⟩ := holds
    cases label : f.cflowGraph.vertexLabel v with
    | none => simp [label, blockCalls] at inside
    | some lb =>
      cases lb with
      | resolved bb =>
        rw [label] at inside
        obtain ⟨stmt, member, called⟩ := List.mem_filterMap.mp inside
        exact ⟨bb, ⟨_, ⟨v, by simp [label], label⟩, rfl⟩, stmt, member, size, called⟩
      | unresolved target => simp [label, blockCalls] at inside
      | failed pos msg => simp [label, blockCalls] at inside

/-- The graph and the entry point, which decide where a function starts and what it calls. -/
def core (f : Function) : ControlFlowGraph × Nat := (f.cflowGraph, f.entryPoint)

private theorem disassemble_new {request : Request} {draw : Draw} {result : Except String Function}
    (done : request.disassemble setup draw = some result) :
    ∃ name fresh, Function.new setup.arch draw.orders draw.fuel request.entry setup.region setup.regionName name setup.config
      draw.uuid = some fresh ∧ result.map core = fresh.map core := by
  cases request with
  | call address => exact ⟨none, result, done, rfl⟩
  | todo init =>
    simp only [Request.disassemble, Function.withUuid, Option.map_eq_some_iff] at done
    obtain ⟨fresh, recovered, rfl⟩ := done
    refine ⟨init.name, fresh, recovered, ?_⟩
    cases fresh <;> rfl

theorem disassemble_cases {request : Request} {draw : Draw} {result : Except String Function}
    (done : request.disassemble setup draw = some result) :
    ∃ work, loop (turn (setup.arch.decode setup.region · setup.config) draw.orders.todo) draw.fuel 0
        (freshWork draw.orders request.entry) = some work ∧
      (result.map core).toOption = ((assembleCflowGraph draw.orders work.mnemonics work.bySource work.byDestination
        request.entry).findVertex draw.orders.vertices (isEntry request.entry)).map
          fun entryPoint => (assembleCflowGraph draw.orders work.mnemonics work.bySource work.byDestination
            request.entry, entryPoint) := by
  obtain ⟨name, fresh, recovered, same⟩ := disassemble_new done
  simp only [Function.new, Function.disassemble, Option.map_map, Option.map_eq_some_iff, Function.comp_apply] at recovered
  obtain ⟨work, finished, rfl⟩ := recovered
  refine ⟨work, finished, ?_⟩
  rw [same]
  cases AdjacencyList.findVertex (assembleCflowGraph draw.orders work.mnemonics work.bySource work.byDestination
      request.entry) draw.orders.vertices (isEntry request.entry) <;> rfl

theorem disassemble_startsAt {request : Request} {draw : Draw} {f : Function}
    (done : request.disassemble setup draw = some (.ok f)) : StartsAt f request.entry := by
  obtain ⟨work, -, shape⟩ := disassemble_cases done
  simp only [Except.map, Except.toOption] at shape
  obtain ⟨entryPoint, found, same⟩ := Option.map_eq_some_iff.mp shape.symm
  obtain ⟨graph, entry⟩ := Prod.mk.inj same
  obtain ⟨lb, label, isStart⟩ := findVertex_some found
  rw [graph, entry] at label
  cases lb with
  | resolved bb =>
    simp only [isEntry, Bool.and_eq_true, beq_iff_eq] at isStart
    simp [StartsAt, Function.start, label, isStart.1]
  | unresolved target => cases isStart
  | failed pos msg => cases isStart

/-- Two results agree on success and on the addresses called. -/
def Alike : Except String Function → Except String Function → Prop
  | .ok f, .ok f' => ∀ c, Calls f c ↔ Calls f' c
  | .error _, .error _ => True
  | _, _ => False

/-- What is disassembled at an address depends on the address alone. -/
def Deterministic (setup : Setup Region) : Prop :=
  ∀ (request request' : Request) (draw draw' : Draw) (result result' : Except String Function),
    request.entry = request'.entry → request.disassemble setup draw = some result →
    request'.disassemble setup draw' = some result' → Alike result result'

theorem resolved_label_iff {decode : UInt64 → Except String Match} {start : UInt64} {work : Worklist}
    (complete : Complete decode start work) (orders : HashOrders) (bb : BasicBlock) :
    (∃ v, (assembleCflowGraph orders work.mnemonics work.bySource work.byDestination start).vertexLabel v =
      some (.resolved bb)) ↔ .resolved bb ∈ placed decode start work := by
  obtain ⟨labels, arcs, run, lists⟩ := assembled complete orders
  constructor
  · intro holds
    obtain ⟨v, label⟩ := holds
    rw [lists.vertexLabel] at label
    exact List.mem_of_getElem? (placed_of_label run label (by simp))
  · intro member
    obtain ⟨v, label⟩ := List.mem_iff_getElem?.mp member
    exact ⟨v, by rw [lists.vertexLabel]; exact label_of_placed run label⟩

private theorem placed_eq {decode : UInt64 → Except String Match} {start : UInt64} {first second : Worklist}
    (complete : Complete decode start first) (complete' : Complete decode start second) :
    placed decode start first = placed decode start second := by
  rw [placed, placed, cut_eq complete complete', entries, entries, mnemonics_eq complete complete']

private theorem calls_iff {f : Function} {c : UInt64} : Calls f c ↔ ∃ bb, (∃ v, f.cflowGraph.vertexLabel v = some (.resolved bb)) ∧
    ∃ size, .constant c size ∈ bb.statements.filterMap callTarget := by
  constructor
  · intro holds
    obtain ⟨size, v, inside⟩ := holds
    cases label : f.cflowGraph.vertexLabel v with
    | none => simp [label, blockCalls] at inside
    | some lb =>
      cases lb with
      | resolved bb => exact ⟨bb, ⟨v, label⟩, size, by simpa [label, blockCalls] using inside⟩
      | unresolved target => simp [label, blockCalls] at inside
      | failed pos msg => simp [label, blockCalls] at inside
  · intro holds
    obtain ⟨bb, ⟨v, label⟩, size, inside⟩ := holds
    exact ⟨size, v, by rw [label]; exact inside⟩

/-- Decoders with one mnemonic per address disassemble deterministically, whatever the hash orders. -/
theorem deterministic_of_single (single : SingleMnemonic (setup.arch.decode setup.region · setup.config)) :
    Deterministic setup := by
  intro request request' draw draw' result result' same done done'
  obtain ⟨work, finished, shape⟩ := disassemble_cases done
  obtain ⟨work', finished', shape'⟩ := disassemble_cases done'
  rw [← same] at finished' shape'
  have first := complete single draw.orders finished
  have second := complete single draw'.orders finished'
  have blocks (bb : BasicBlock) : (∃ v, (assembleCflowGraph draw.orders work.mnemonics work.bySource work.byDestination
        request.entry).vertexLabel v = some (.resolved bb)) ↔
      ∃ v, (assembleCflowGraph draw'.orders work'.mnemonics work'.bySource work'.byDestination
        request.entry).vertexLabel v = some (.resolved bb) := by
    rw [resolved_label_iff first, resolved_label_iff second, placed_eq first second]
  -- an entry block in one of the graphs is an entry block in the other
  have moves {g g' : ControlFlowGraph} {order : Enumeration Nat} (start : UInt64)
      (blocks : ∀ bb, (∃ v, g.vertexLabel v = some (.resolved bb)) ↔ ∃ v, g'.vertexLabel v = some (.resolved bb)) {v : Nat}
      (found : g.findVertex order (isEntry start) = some v) (order' : Enumeration Nat) :
      g'.findVertex order' (isEntry start) ≠ none := by
    obtain ⟨lb, label, isStart⟩ := findVertex_some found
    cases lb with
    | resolved bb =>
      obtain ⟨w, label'⟩ := (blocks bb).mp ⟨v, label⟩
      intro missing
      simp [(findVertex_eq_none _ _ _).mp missing w _ label'] at isStart
    | unresolved target => cases isStart
    | failed pos msg => cases isStart
  cases result with
  | error e =>
    cases result' with
    | error e' => trivial
    | ok f' =>
      have missing := Option.map_eq_none_iff.mp shape.symm
      obtain ⟨v, found, -⟩ := Option.map_eq_some_iff.mp shape'.symm
      exact moves request.entry (fun bb => (blocks bb).symm) found draw.orders.vertices missing
  | ok f =>
    obtain ⟨v, found, graph⟩ := Option.map_eq_some_iff.mp shape.symm
    cases result' with
    | error e' =>
      have missing := Option.map_eq_none_iff.mp shape'.symm
      exact moves request.entry blocks found draw'.orders.vertices missing
    | ok f' =>
      obtain ⟨v', -, graph'⟩ := Option.map_eq_some_iff.mp shape'.symm
      intro c
      simp only [calls_iff, ← (Prod.mk.inj graph).1, ← (Prod.mk.inj graph').1, blocks]

def Recovers (setup : Setup Region) (a : UInt64) (f : Function) : Prop :=
  ∃ (request : Request) (draw : Draw), request.entry = a ∧ request.disassemble setup draw = some (.ok f)

/-- A function disassembled at `a` calls `c`. -/
def Leads (setup : Setup Region) (a c : UInt64) : Prop := ∃ f, Recovers setup a f ∧ Calls f c

/-- Some placeholder of the program names the constant `a`. -/
def Seed (program : Program) (a : UInt64) : Prop :=
  ∃ v lb init, program.callGraph.vertexLabel v = some lb ∧ lb.init? = some init ∧ init.entry = a

/-- The closure of the placeholders under the calls of disassembled functions. -/
def Discovered (setup : Setup Region) (program : Program) (a : UInt64) : Prop :=
  ∃ seed, Seed program seed ∧ Relation.ReflTransGen (Leads setup) seed a

variable {program : Program}

theorem Seed.discovered {a : UInt64} (seed : Seed program a) : Discovered setup program a := ⟨a, seed, .refl⟩

theorem Discovered.next {a c : UInt64} (discovered : Discovered setup program a) (leads : Leads setup a c) :
    Discovered setup program c := by
  obtain ⟨seed, initial, path⟩ := discovered
  exact ⟨seed, initial, path.tail leads⟩

/-- What holds of the placeholders and along calls holds of every discovered address. -/
theorem Discovered.induction {p : UInt64 → Prop} (seeds : ∀ a, Seed program a → p a)
    (closed : ∀ a c, p a → Leads setup a c → p c) {a : UInt64} (discovered : Discovered setup program a) : p a := by
  obtain ⟨seed, initial, path⟩ := discovered
  induction path with
  | refl => exact seeds seed initial
  | tail _ leads ih => exact closed _ _ ih leads

private theorem mem_inits {vertices : Enumeration Nat} {init : Init} :
    init ∈ program.inits vertices ↔ ∃ v lb, program.callGraph.vertexLabel v = some lb ∧ lb.init? = some init := by
  simp only [Program.inits, List.mem_filterMap, mem_vertices]
  constructor
  · intro holds
    obtain ⟨lb, ⟨v, _, label⟩, placeholder⟩ := holds
    exact ⟨v, lb, label, placeholder⟩
  · intro holds
    obtain ⟨v, lb, label, placeholder⟩ := holds
    exact ⟨lb, ⟨v, by simp [label], label⟩, placeholder⟩

theorem seed_iff (vertices : Enumeration Nat) {a : UInt64} :
    Seed program a ↔ ∃ init ∈ program.inits vertices, init.entry = a := by
  simp only [mem_inits, Seed]
  constructor
  · intro holds
    obtain ⟨v, lb, init, label, placeholder, entry⟩ := holds
    exact ⟨init, ⟨v, lb, label, placeholder⟩, entry⟩
  · intro holds
    obtain ⟨init, ⟨v, lb, label, placeholder⟩, entry⟩ := holds
    exact ⟨v, lb, init, label, placeholder, entry⟩

section
variable (deterministic : Deterministic setup)
include deterministic

/-- The calls of one function disassembled at an address are those of every other one. -/
theorem leads_iff {request : Request} {draw : Draw} {f : Function}
    (done : request.disassemble setup draw = some (.ok f)) (c : UInt64) : Leads setup request.entry c ↔ Calls f c := by
  constructor
  · intro holds
    obtain ⟨f', ⟨request', draw', same, done'⟩, calls⟩ := holds
    exact (deterministic request' request draw' draw _ _ same done' done c).mp calls
  · intro calls
    exact ⟨f, ⟨request, draw, rfl, done⟩, calls⟩

theorem not_recovers {request : Request} {draw : Draw} {e : String}
    (done : request.disassemble setup draw = some (.error e)) (f : Function) : ¬ Recovers setup request.entry f := by
  intro holds
  obtain ⟨request', draw', same, done'⟩ := holds
  exact deterministic request' request draw' draw _ _ same done' done

end

/-- The start addresses of a list of functions. -/
def starts (fs : List Function) : List UInt64 := fs.filterMap fun f => (f.start : Outcome Empty UInt64).value?

theorem starts_concat {fs : List Function} {f : Function} {a : UInt64} (start : StartsAt f a) :
    starts (fs ++ [f]) = starts fs ++ [a] := by
  unfold StartsAt at start
  simp [starts, start, Outcome.value?]

end Panopticon.Proofs.Discovery
