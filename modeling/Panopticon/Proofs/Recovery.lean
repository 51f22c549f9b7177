import Panopticon.Proofs.Layout

/-! Results about the control flow graph of a freshly disassembled function. -/

open Panopticon.Function

namespace Panopticon.Proofs.Recovery
open Library AdjacencyList Worklist Sweep Connect Layout

section
variable {decode : UInt64 → Except String Match} {start : UInt64} {work : Worklist}

theorem assembled (complete : Complete decode start work) (orders : HashOrders) :
    ∃ labels arcs,
      ConnectsAll (placed decode start work) (jumpList (orders.bySource.list work.bySource.toList)) labels arcs ∧
      (assembleCflowGraph orders work.mnemonics work.bySource work.byDestination start).Lists labels arcs :=
  connectAll_connects (sweepAll_lists (toList_eq complete.toInvariant)) orders.vertices _

theorem placed_of_label {placed labels : List ControlFlowTarget} {jumps : List Jump} {arcs : List Arc}
    (run : ConnectsAll placed jumps labels arcs) {v : Nat} {lb : ControlFlowTarget} (label : labels[v]? = some lb)
    (solid : ∀ target, lb ≠ .unresolved target) : placed[v]? = some lb := by
  obtain ⟨extras, rfl, unresolved⟩ := run.grows
  rw [List.getElem?_append] at label
  split at label
  · exact label
  · obtain ⟨target, same⟩ := unresolved lb (List.mem_of_getElem? label)
    exact absurd same (solid target)

theorem label_of_placed {placed labels : List ControlFlowTarget} {jumps : List Jump} {arcs : List Arc}
    (run : ConnectsAll placed jumps labels arcs) {v : Nat} {lb : ControlFlowTarget} (label : placed[v]? = some lb) :
    labels[v]? = some lb := by
  obtain ⟨extras, rfl, -⟩ := run.grows
  rw [List.getElem?_append_left (List.getElem?_eq_some_iff.mp label).1, label]

end

section
variable {Region : Type} {arch : Architecture Region} {orders : HashOrders} {fuel : Nat} {start : UInt64}
  {region : Region} {regionName : String} {name : Option String} {init : arch.Configuration} {uuid : Uuid}

theorem new_cases {f : Function} (single : SingleMnemonic (arch.decode region · init))
    (recovered : Function.new arch orders fuel start region regionName name init uuid = some (.ok f)) :
    ∃ work, Complete (arch.decode region · init) start work ∧
      f.cflowGraph = assembleCflowGraph orders work.mnemonics work.bySource work.byDestination start ∧
      f.cflowGraph.findVertex orders.vertices (isEntry start) = some f.entryPoint := by
  simp only [Function.new, disassemble, Option.map_map, Option.map_eq_some_iff] at recovered
  obtain ⟨work, finished, result⟩ := recovered
  refine ⟨work, complete single orders finished, ?_⟩
  simp only [Function.comp_apply] at result
  cases found : (assembleCflowGraph orders work.mnemonics work.bySource work.byDestination start).findVertex
      orders.vertices (isEntry start) with
  | none =>
    rw [found] at result
    cases result
  | some entryPoint =>
    rw [found] at result
    cases result
    exact ⟨rfl, found⟩

/-- A function recovered by running the model, with what can be computed about it. -/
theorem recovers_with (result : Option (Except String Function)) (p : Function → Bool)
    (computed : result.any (fun outcome => outcome.toOption.any p) = true) :
    ∃ f, result = some (.ok f) ∧ p f = true := by
  cases result with
  | none => simp at computed
  | some outcome =>
    cases outcome with
    | error e => simp [Except.toOption] at computed
    | ok f => exact ⟨f, rfl, by simpa [Except.toOption] using computed⟩

/-- The control flow recovered for a decoder is well-formed. -/
structure WellFormed (decode : UInt64 → Except String Match) (start : UInt64) (f : Function) : Prop where
  covered : ∀ mne, Decoded decode start mne →
    ∃! v, ∃ bb, f.cflowGraph.vertexLabel v = some (.resolved bb) ∧ mne ∈ bb.mnemonics
  block : ∀ v bb, f.cflowGraph.vertexLabel v = some (.resolved bb) →
    bb.mnemonics ≠ [] ∧ (∀ mne ∈ bb.mnemonics, Decoded decode start mne) ∧
    bb.mnemonics.IsChain (fun mne next => mne.area.stop = next.area.start) ∧
    bb.mnemonics.Pairwise (fun mne next => mne.area.start < next.area.start) ∧
    ∀ addr, bb.area.start ≤ addr ∧ addr < bb.area.stop ↔
      ∃ mne ∈ bb.mnemonics, mne.area.start ≤ addr ∧ addr < mne.area.stop
  consecutive : ∀ v bb mne next, f.cflowGraph.vertexLabel v = some (.resolved bb) → [mne, next] <:+: bb.mnemonics →
    (∀ origin value size guard, (origin, .constant value size, guard) ∈ jumpsAt decode mne.area.start →
      value = next.area.start) ∧
    (∃ origin size guard, (origin, .constant next.area.start size, guard) ∈ jumpsAt decode mne.area.start) ∧
    (∀ addr, Reached decode start addr → ∀ origin size guard,
      (origin, .constant next.area.start size, guard) ∈ jumpsAt decode addr → addr = mne.area.start) ∧
    next.area.start ≠ start
  entry : ∃ bb, f.cflowGraph.vertexLabel f.entryPoint = some (.resolved bb) ∧ bb.area.start = start

/-- Whatever a decoder with one mnemonic per address reports, the control flow recovered is well-formed. -/
theorem new_wellFormed {f : Function} (single : SingleMnemonic (arch.decode region · init))
    (recovered : Function.new arch orders fuel start region regionName name init uuid = some (.ok f)) :
    WellFormed (arch.decode region · init) start f := by
  obtain ⟨work, complete, graph, entry⟩ := new_cases single recovered
  obtain ⟨labels, arcs, run, lists⟩ := assembled complete orders
  rw [← graph] at lists
  have table := sorted single work
  have resolved {v : Nat} {bb : BasicBlock} : f.cflowGraph.vertexLabel v = some (.resolved bb) ↔
      (placed (arch.decode region · init) start work)[v]? = some (.resolved bb) := by
    rw [lists.vertexLabel]
    exact ⟨fun label => placed_of_label run label (by simp), label_of_placed run⟩
  constructor
  · intro mne decoded
    obtain ⟨bb, member, inside⟩ := block_exists (cut work start) ((mnemonic_mem single complete mne).mpr decoded)
    obtain ⟨v, label⟩ := List.mem_iff_getElem?.mp member
    refine ⟨v, ⟨bb, resolved.mpr label, inside⟩, ?_⟩
    rintro w ⟨other, label', inside'⟩
    exact index_unique (table.addresses_nodup _) (resolved.mp label') label
      (List.mem_map_of_mem inside') (List.mem_map_of_mem inside)
  · intro v bb label
    have member := List.mem_of_getElem? (resolved.mp label)
    refine ⟨block_nonempty member, ?_, (block_contiguous cut_adjacent table member).adjacent, ?_,
      block_mem_area cut_adjacent table member⟩
    · intro mne inside
      exact (mnemonic_mem single complete mne).mp (block_member member inside)
    · exact block_ascending table member
  · intro v bb mne next label pair
    have follows := (follows_iff mne next).mpr ⟨bb, List.mem_of_getElem? (resolved.mp label), pair⟩
    have falls := (follows_iff_fallsThrough single complete mne next).mp follows
    exact ⟨falls.outgoing, falls.jump, falls.incoming, falls.inner⟩
  · obtain ⟨lb, label, isStart⟩ := AdjacencyList.findVertex_some entry
    cases lb with
    | resolved bb =>
      simp only [isEntry, Bool.and_eq_true, beq_iff_eq] at isStart
      exact ⟨bb, label, isStart.1⟩
    | unresolved _ | failed _ _ => cases isStart

/-- Two mnemonics of which the second is entered by falling through. -/
def twoInARow : Architecture Unit := listing
  [instruction 0 1 [(.newU64 1, .always)], instruction 1 3 [(.var "r" none 0 64, .always)]]

theorem new_wellFormed_twoInARow :
    ∃ f, Function.new twoInARow .canonical 4 0 () "code" none () 0 = some (.ok f) ∧
      WellFormed (twoInARow.decode () · ()) 0 f := by
  obtain ⟨f, recovered, -⟩ := recovers_with (Function.new twoInARow .canonical 4 0 () "code" none () 0)
    (fun _ => true) (by decide)
  exact ⟨f, recovered, new_wellFormed (listing_single _ (by decide)) recovered⟩

/-- The vertices a jump target can be represented by. -/
def StandsFor (tgt : Rvalue) : ControlFlowTarget → Prop
  | .resolved bb => ∃ size, tgt = .constant bb.area.start size
  | .failed pos _ => ∃ size, tgt = .constant pos size
  | .unresolved value => value = tgt

/-- A jump is an edge from the block that ends with its origin, or it falls through inside a block. -/
def Represented (g : ControlFlowGraph) (origin : UInt64) (tgt : Rvalue) (gu : Guard) : Prop :=
  (∃ e src dst bb mne lb, g.edgeLabel e = some gu ∧ g.source e = some src ∧ g.target e = some dst ∧
    g.vertexLabel src = some (.resolved bb) ∧ bb.mnemonics.getLast? = some mne ∧ mne.area.start = origin ∧
    g.vertexLabel dst = some lb ∧ StandsFor tgt lb) ∨
  ∃ v bb mne next size, g.vertexLabel v = some (.resolved bb) ∧ [mne, next] <:+: bb.mnemonics ∧
    mne.area.start = origin ∧ tgt = .constant next.area.start size

private theorem standsFor_of_enters {tgt : Rvalue} {lb : ControlFlowTarget} (entering : enters tgt lb = true) :
    StandsFor tgt lb := by
  cases lb with
  | unresolved value => exact beq_iff_eq.mp entering
  | resolved bb =>
    cases tgt with
    | constant value size => exact ⟨size, by rw [(beq_iff_eq.mp entering : bb.area.start = value)]⟩
    | undefined | var _ _ _ _ => cases entering
  | failed pos msg =>
    cases tgt with
    | constant value size => exact ⟨size, by rw [(beq_iff_eq.mp entering : pos = value)]⟩
    | undefined | var _ _ _ _ => cases entering

/-- A jump to a computed target is lost when its origin is not the last mnemonic of a block. -/
theorem not_represented {f : Function} (single : SingleMnemonic (arch.decode region · init))
    (recovered : Function.new arch orders fuel start region regionName name init uuid = some (.ok f))
    {mne next : Mnemonic} (falls : FallsThrough (arch.decode region · init) start mne next) {tgt : Rvalue} {gu : Guard}
    (varying : tgt.constant? = none) : ¬ Represented f.cflowGraph mne.area.start tgt gu := by
  obtain ⟨work, complete, graph, -⟩ := new_cases single recovered
  obtain ⟨labels, arcs, run, lists⟩ := assembled complete orders
  rw [← graph] at lists
  rintro (⟨e, src, dst, bb, last, lb, _, _, _, label, final, same, _⟩ | ⟨_, _, _, _, _, _, _, _, rfl⟩)
  · rw [lists.vertexLabel] at label
    have member := List.mem_of_getElem? (placed_of_label run label (by simp))
    have ends := (ends_iff single complete falls.first).mp ⟨_, member, by simp [leaves, final, same]⟩
    exact ends ⟨next, falls⟩
  · cases varying

private theorem represented_of_constant {f : Function} (single : SingleMnemonic (arch.decode region · init))
    (recovered : Function.new arch orders fuel start region regionName name init uuid = some (.ok f))
    (constant : ∀ mne next, FallsThrough (arch.decode region · init) start mne next →
      ∀ jump ∈ jumpsAt (arch.decode region · init) mne.area.start, jump.2.1.constant?.isSome)
    {origin : UInt64} {tgt : Rvalue} {gu : Guard} (reached : Reached (arch.decode region · init) start origin)
    (jump : (origin, tgt, gu) ∈ jumpsAt (arch.decode region · init) origin) :
    Represented f.cflowGraph origin tgt gu := by
  obtain ⟨work, complete, graph, -⟩ := new_cases single recovered
  obtain ⟨labels, arcs, run, lists⟩ := assembled complete orders
  rw [← graph] at lists
  have fitting := fits single complete orders.bySource
  have none : NoConstants labels := by
    refine (run.constants fitting (List.Subset.refl _)).resolve_right ?_
    rintro ⟨origin, tgt, gu, _, _, member, varying, inner, _⟩
    obtain ⟨reached, jump⟩ := (mem_jumps single complete orders.bySource _ _ _).mp member
    obtain ⟨mne, decoded, rfl⟩ := jump_decoded single reached jump
    have through : ∃ next, FallsThrough (arch.decode region · init) start mne next := by
      by_contra nothing
      obtain ⟨lb, inside, leaving⟩ := (ends_iff single complete decoded).mpr nothing
      simp [inner lb inside] at leaving
    obtain ⟨next, falls⟩ := through
    simpa [varying] using constant mne next falls _ jump
  obtain ⟨mne, decoded, rfl⟩ := jump_decoded single reached jump
  by_cases through : ∃ next, FallsThrough (arch.decode region · init) start mne next
  · right
    obtain ⟨next, falls⟩ := through
    obtain ⟨bb, member, pair⟩ := (follows_iff mne next).mp ((follows_iff_fallsThrough single complete mne next).mpr falls)
    obtain ⟨v, label⟩ := List.mem_iff_getElem?.mp member
    have fixed := constant mne next falls _ jump
    cases tgt with
    | constant value size =>
      refine ⟨v, bb, mne, next, size, ?_, pair, rfl, by rw [falls.outgoing _ _ _ _ jump]⟩
      rw [lists.vertexLabel, label_of_placed run label]
    | undefined | var _ _ _ _ => cases fixed
  · left
    obtain ⟨from_, member, leaving⟩ := (ends_iff single complete decoded).mpr through
    have listed := (mem_jumps single complete orders.bySource _ _ _).mpr ⟨reached, jump⟩
    have arc : (gu, some from_, some (destination (placed (arch.decode region · init) start work) tgt)) ∈
        view labels arcs := by
      rw [(run.exact fitting (List.Subset.refl _) none).1, List.mem_filterMap]
      exact ⟨_, listed, by simp [expected, fitting.find_leaves member leaving]⟩
    obtain ⟨⟨_, src, dst⟩, inside, same⟩ := List.mem_map.mp arc
    simp only [Prod.mk.injEq] at same
    obtain ⟨rfl, source, target⟩ := same
    obtain ⟨e, edge⟩ := lists.edge_of_arc inside
    obtain ⟨bb, rfl, final⟩ := leaves_block single complete decoded member leaving
    exact ⟨e, src, dst, bb, mne, _, edge.1, edge.2.1, edge.2.2, by rw [lists.vertexLabel, source], final, rfl,
      by rw [lists.vertexLabel, target], standsFor_of_enters (fitting.destination_enters listed member leaving)⟩

/-- No jump is lost exactly when every mnemonic that another one falls through from reports constant jumps only. -/
theorem jumps_represented_iff {f : Function} (single : SingleMnemonic (arch.decode region · init))
    (recovered : Function.new arch orders fuel start region regionName name init uuid = some (.ok f)) :
    (∀ addr, Reached (arch.decode region · init) start addr →
      ∀ origin tgt gu, (origin, tgt, gu) ∈ jumpsAt (arch.decode region · init) addr →
        Represented f.cflowGraph origin tgt gu) ↔
      ∀ mne next, FallsThrough (arch.decode region · init) start mne next →
        ∀ jump ∈ jumpsAt (arch.decode region · init) mne.area.start, jump.2.1.constant?.isSome := by
  constructor
  · rintro all mne next falls ⟨origin, tgt, gu⟩ jump
    have same := single.origin jump
    subst same
    have represented := all _ falls.first.1 _ tgt gu jump
    cases fixed : tgt.constant? with
    | some _ => rfl
    | none => exact absurd represented (not_represented single recovered falls fixed)
  · intro constant addr reached origin tgt gu jump
    have same := single.origin jump
    subst same
    exact represented_of_constant single recovered constant reached jump

/-- A mnemonic that either continues to the next one or jumps to a computed target. -/
def conditionalReturn : Architecture Unit := listing
  [instruction 0 1 [(.newU64 1, .predicate (.var "z" none 0 1) true), (.var "r" none 0 64, .predicate (.var "z" none 0 1) false)],
   instruction 1 2 []]

theorem jumps_represented_iff_twoInARow :
    ∃ f, Function.new twoInARow .canonical 4 0 () "code" none () 0 = some (.ok f) ∧
      ((∀ addr, Reached (twoInARow.decode () · ()) 0 addr →
        ∀ origin tgt gu, (origin, tgt, gu) ∈ jumpsAt (twoInARow.decode () · ()) addr →
          Represented f.cflowGraph origin tgt gu) ↔
        ∀ mne next, FallsThrough (twoInARow.decode () · ()) 0 mne next →
          ∀ jump ∈ jumpsAt (twoInARow.decode () · ()) mne.area.start, jump.2.1.constant?.isSome) := by
  obtain ⟨f, recovered, -⟩ := recovers_with (Function.new twoInARow .canonical 4 0 () "code" none () 0)
    (fun _ => true) (by decide)
  exact ⟨f, recovered, jumps_represented_iff (listing_single _ (by decide)) recovered⟩

theorem conditionalReturn_loses_jump :
    ∃ f, Function.new conditionalReturn .canonical 4 0 () "code" none () 0 = some (.ok f) ∧
      (0, .var "r" none 0 64, .predicate (.var "z" none 0 1) false) ∈ jumpsAt (conditionalReturn.decode () · ()) 0 ∧
      ¬ Represented f.cflowGraph 0 (.var "r" none 0 64) (.predicate (.var "z" none 0 1) false) := by
  obtain ⟨f, recovered, empty⟩ := recovers_with (Function.new conditionalReturn .canonical 4 0 () "code" none () 0)
    (fun f => f.cflowGraph.edgeLabels.isEmpty) (by decide)
  refine ⟨f, recovered, by decide, ?_⟩
  rintro (⟨e, _, _, _, _, _, label, _⟩ | ⟨_, _, _, _, _, _, _, _, constant⟩)
  · simp [AdjacencyList.edgeLabel, Std.ExtTreeMap.isEmpty_iff.mp empty] at label
  · cases constant

end

section
variable {decode : UInt64 → Except String Match} {start : UInt64} {first second : Worklist}

theorem mnemonics_eq (complete : Complete decode start first) (complete' : Complete decode start second) :
    first.mnemonics = second.mnemonics := by
  have value {work : Worklist} (complete : Complete decode start work) (addr : UInt64) :
      work.mnemonics[addr]? = some [entryAt decode addr] ∨
        work.mnemonics[addr]? = none ∧ ¬ Reached decode start addr := by
    cases found : work.mnemonics[addr]? with
    | none =>
      refine .inr ⟨rfl, fun reached => ?_⟩
      have member := Std.ExtTreeMap.isSome_getElem?_iff_mem.mpr ((complete.visited addr).mpr reached)
      simp [found] at member
    | some entry => exact .inl (by rw [(complete.entries addr entry found).1])
  apply Std.ExtTreeMap.ext_getElem?
  intro addr
  have visited := (complete.visited addr).trans (complete'.visited addr).symm
  rcases value complete addr with found | ⟨found, missing⟩ <;>
    rcases value complete' addr with found' | ⟨found', missing'⟩
  · rw [found, found']
  · exact absurd ((complete.visited addr).mp (by simp [← Std.ExtTreeMap.isSome_getElem?_iff_mem, found])) missing'
  · exact absurd ((complete'.visited addr).mp (by simp [← Std.ExtTreeMap.isSome_getElem?_iff_mem, found'])) missing
  · rw [found, found']

theorem bySource_eq (complete : Complete decode start first) (complete' : Complete decode start second) :
    first.bySource = second.bySource := by
  apply Std.ExtTreeMap.ext_getElem?
  intro origin
  rw [complete.bySource, complete'.bySource, mnemonics_eq complete complete']

/-- The cuts depend only on which jumps enter an address, not on the order they were found in. -/
theorem cut_eq (complete : Complete decode start first) (complete' : Complete decode start second) :
    cut first start = cut second start := by
  have incoming (addr other : UInt64) : otherConstant (valuesAt first.byDestination addr) other =
      otherConstant (valuesAt second.byDestination addr) other := by
    have same : otherConstant (valuesAt first.byDestination addr) other = false ↔
        otherConstant (valuesAt second.byDestination addr) other = false := by
      simp only [otherConstant_eq_false, complete.byDestination, complete'.byDestination,
        mnemonics_eq complete complete']
    rw [Bool.eq_iff_iff, ← not_iff_not]
    simpa using same
  funext mne next
  simp only [cut, newBb, bySource_eq complete complete', incoming]

private theorem assemble_eq (complete : Complete decode start first) (complete' : Complete decode start second)
    {orders orders' : HashOrders} (bySource : orders.bySource = orders'.bySource)
    (vertices : orders.vertices = orders'.vertices) :
    assembleCflowGraph orders first.mnemonics first.bySource first.byDestination start =
      assembleCflowGraph orders' second.mnemonics second.bySource second.byDestination start := by
  have step : sweepEntry first.bySource first.byDestination start =
      sweepEntry second.bySource second.byDestination start := by
    have cuts : newBb first.bySource first.byDestination start = newBb second.bySource second.byDestination start :=
      cut_eq complete complete'
    funext sweep mnes
    unfold sweepEntry
    rw [cuts]
  unfold assembleCflowGraph sweepAll
  rw [step, mnemonics_eq complete complete', bySource_eq complete complete', bySource, vertices]

end

section
variable {Region : Type} {arch : Architecture Region} {orders : HashOrders} {fuel : Nat} {start : UInt64}
  {region : Region} {regionName : String} {name : Option String} {init : arch.Configuration} {uuid : Uuid}

def freshWork (orders : HashOrders) (start : UInt64) : Worklist :=
  initialWork orders ((AdjacencyList.new : ControlFlowGraph).addVertex (.unresolved (.newU64 start))).1 start 0

theorem new_graph_eq (single : SingleMnemonic (arch.decode region · init)) {orders' : HashOrders} {fuel' : Nat}
    {result result' : Except String Function}
    (recovered : Function.new arch orders fuel start region regionName name init uuid = some result)
    (recovered' : Function.new arch orders' fuel' start region regionName name init uuid = some result')
    (bySource : orders.bySource = orders'.bySource) (vertices : orders.vertices = orders'.vertices)
    (display : orders.display = orders'.display) :
    result.map (fun f => (f.cflowGraph, f.entryPoint)) = result'.map fun f => (f.cflowGraph, f.entryPoint) := by
  simp only [Function.new, disassemble, Option.map_map, Option.map_eq_some_iff, Function.comp_apply]
    at recovered recovered'
  obtain ⟨first, finished, rfl⟩ := recovered
  obtain ⟨second, finished', rfl⟩ := recovered'
  rw [assemble_eq (complete single orders finished) (complete single orders' finished') bySource vertices, vertices, display]
  cases AdjacencyList.findVertex (assembleCflowGraph orders' second.mnemonics second.bySource second.byDestination start)
      orders'.vertices (isEntry start) <;> rfl

/-- In whatever order the worklist is drained, the loop ends after decoding each reached address
once, and the graph recovered is the same. -/
theorem disassemble_order_independent (single : SingleMnemonic (arch.decode region · init)) :
    (∀ todo, ∃ enough, ∀ fuel, enough ≤ fuel →
      ∃ work, loop (turn (arch.decode region · init) todo) fuel 0 (freshWork orders start) = some work) ∧
    (∀ todo fuel work, loop (turn (arch.decode region · init) todo) fuel 0 (freshWork orders start) = some work →
      work.calls.Nodup ∧ ∀ addr, addr ∈ work.calls ↔ Reached (arch.decode region · init) start addr) ∧
    ∀ todo todo' fuel fuel' result result',
      Function.new arch { orders with todo } fuel start region regionName name init uuid = some result →
      Function.new arch { orders with todo := todo' } fuel' start region regionName name init uuid = some result' →
      result.map (fun f => (f.cflowGraph, f.entryPoint)) = result'.map fun f => (f.cflowGraph, f.entryPoint) := by
  refine ⟨?_, ?_, ?_⟩
  · intro todo
    obtain ⟨enough, work, finished⟩ := terminates single { orders with todo } start 0
    exact ⟨enough, fun fuel le => ⟨work, loop_more_fuel finished le⟩⟩
  · intro todo fuel work finished
    have done : Complete _ start work := complete single { orders with todo } finished
    exact ⟨done.calls.1, fun addr => (done.calls.2 addr).trans (done.visited addr)⟩
  · intro todo todo' fuel fuel' result result' recovered recovered'
    exact new_graph_eq single recovered recovered' rfl rfl rfl

theorem disassemble_order_independent_twoInARow :
    (∀ todo, ∃ enough, ∀ fuel, enough ≤ fuel →
      ∃ work, loop (turn (twoInARow.decode () · ()) todo) fuel 0 (freshWork .canonical 0) = some work) ∧
    (∀ todo fuel work, loop (turn (twoInARow.decode () · ()) todo) fuel 0 (freshWork .canonical 0) = some work →
      work.calls.Nodup ∧ ∀ addr, addr ∈ work.calls ↔ Reached (twoInARow.decode () · ()) 0 addr) ∧
    ∀ todo todo' fuel fuel' result result',
      Function.new twoInARow { HashOrders.canonical with todo } fuel 0 () "code" none () 0 = some result →
      Function.new twoInARow { HashOrders.canonical with todo := todo' } fuel' 0 () "code" none () 0 = some result' →
      result.map (fun f => (f.cflowGraph, f.entryPoint)) = result'.map fun f => (f.cflowGraph, f.entryPoint) :=
  disassemble_order_independent (listing_single _ (by decide))

end
end Panopticon.Proofs.Recovery
