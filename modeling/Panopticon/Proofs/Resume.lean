import Panopticon.Proofs.Recovery

/-! Flattening a recovered graph and assembling it again, as happens when the
disassembly of a function is continued. -/

open Panopticon.Function

namespace Panopticon.Proofs.Resume
open Library AdjacencyList Worklist Sweep Connect Layout Recovery

/-- Jumps from each mnemonic to the next, the first one from `prev`. -/
def fallsFrom (prev : UInt64) : List Mnemonic → List Jump
  | [] => []
  | mne :: rest => (prev, .newU64 mne.area.start, .always) :: fallsFrom mne.area.start rest

def fallsInto (prev : UInt64) : List Mnemonic → List Jump
  | [] => []
  | mne :: rest => (mne.area.start, .newU64 prev, .always) :: fallsInto mne.area.start rest

def tableEntries : ControlFlowTarget → List (UInt64 × MnemonicOrError)
  | .resolved bb => bb.mnemonics.map fun mne => (mne.area.start, .mnemonic mne)
  | .failed pos msg => [(pos, .error pos msg)]
  | .unresolved _ => []

def outFalls : ControlFlowTarget → List Jump
  | .resolved ⟨_, mne :: rest⟩ => fallsFrom mne.area.start rest
  | _ => []

def inFalls : ControlFlowTarget → List Jump
  | .resolved ⟨_, mne :: rest⟩ => fallsInto mne.area.start rest
  | _ => []

/-- The value an edge is recorded with where it comes from. -/
def arrival : ControlFlowTarget → Rvalue
  | .resolved bb => .newU64 (lastOf bb)
  | .failed pos _ => .newU64 pos
  | .unresolved (.constant c _) => .newU64 c
  | .unresolved t => t

/-- The entries of an edge in the table by source. -/
def edgeOut (gu : Guard) : ControlFlowTarget → ControlFlowTarget → List Jump
  | src, .resolved bb => ((arrival src).constant?.map fun origin => (origin, .newU64 bb.area.start, gu)).toList
  | src, .failed pos _ => ((arrival src).constant?.map fun origin => (origin, .newU64 pos, gu)).toList
  | .resolved bb, .unresolved (.constant c _) => [(lastOf bb, .newU64 c, gu)]
  | .resolved bb, .unresolved r => [(bb.area.start, r, gu)]
  | .failed pos _, .unresolved (.constant c _) => [(pos, .newU64 c, gu)]
  | .failed pos _, .unresolved r => [(pos, r, gu)]
  | .unresolved _, .unresolved _ => []

/-- The entries of an edge in the table by destination. -/
def edgeIn (gu : Guard) : ControlFlowTarget → ControlFlowTarget → List Jump
  | src, .resolved bb => [(bb.area.start, arrival src, gu)]
  | src, .failed pos _ => [(pos, arrival src, gu)]
  | .resolved bb, .unresolved (.constant c _) => [(c, .newU64 (lastOf bb), gu)]
  | .failed pos _, .unresolved (.constant c _) => [(c, .newU64 pos, gu)]
  | _, .unresolved _ => []

private theorem indexBlock_some (prev : UInt64) (ms : List Mnemonic) (mnemonics : Mnemonics) (bySource byDestination : JumpTable) :
    indexBlock (some prev) (mnemonics, bySource, byDestination) ms =
      (pushAll mnemonics (ms.map fun mne => (mne.area.start, .mnemonic mne)), pushAll bySource (fallsFrom prev ms),
        pushAll byDestination (fallsInto prev ms)) := by
  induction ms generalizing prev mnemonics bySource byDestination with
  | nil => rfl
  | cons mne ms ih =>
    rw [indexBlock]
    simp only [ih]
    rfl

private theorem indexTarget_eq (mnemonics : Mnemonics) (bySource byDestination : JumpTable) (lb : ControlFlowTarget) :
    indexTarget (mnemonics, bySource, byDestination) lb =
      (pushAll mnemonics (tableEntries lb), pushAll bySource (outFalls lb), pushAll byDestination (inFalls lb)) := by
  cases lb with
  | resolved bb =>
    obtain ⟨area, ms⟩ := bb
    cases ms with
    | nil => rfl
    | cons mne ms =>
      simp only [indexTarget, indexBlock, indexBlock_some]
      rfl
  | failed pos msg => rfl
  | unresolved target => rfl

private theorem foldl_indexTarget (labels : List ControlFlowTarget) (mnemonics : Mnemonics) (bySource byDestination : JumpTable) :
    labels.foldl indexTarget (mnemonics, bySource, byDestination) =
      (pushAll mnemonics (labels.flatMap tableEntries), pushAll bySource (labels.flatMap outFalls),
        pushAll byDestination (labels.flatMap inFalls)) := by
  induction labels generalizing mnemonics bySource byDestination with
  | nil => rfl
  | cons lb labels ih =>
    rw [List.foldl_cons, indexTarget_eq, ih]
    simp only [List.flatMap_cons, pushAll_append]

private theorem indexEdge_eq (jumps : JumpTable × JumpTable) (gu : Guard) (src tgt : ControlFlowTarget) :
    indexEdge jumps gu src tgt = (pushAll jumps.1 (edgeOut gu src tgt), pushAll jumps.2 (edgeIn gu src tgt)) := by
  cases src with
  | resolved bb =>
    cases tgt with
    | resolved _ | failed _ _ => rfl
    | unresolved r => cases r <;> rfl
  | failed pos msg =>
    cases tgt with
    | resolved _ | failed _ _ => rfl
    | unresolved r => cases r <;> rfl
  | unresolved t =>
    cases tgt with
    | resolved _ | failed _ _ => cases t <;> rfl
    | unresolved r => cases t <;> cases r <;> rfl

abbrev Edge := Guard × ControlFlowTarget × ControlFlowTarget

private theorem foldl_indexEdge (edges : List Edge) (jumps : JumpTable × JumpTable) :
    edges.foldl (fun jumps edge => indexEdge jumps edge.1 edge.2.1 edge.2.2) jumps =
      (pushAll jumps.1 (edges.flatMap fun edge => edgeOut edge.1 edge.2.1 edge.2.2),
        pushAll jumps.2 (edges.flatMap fun edge => edgeIn edge.1 edge.2.1 edge.2.2)) := by
  induction edges generalizing jumps with
  | nil => rfl
  | cons edge edges ih =>
    rw [List.foldl_cons, indexEdge_eq, ih]
    simp only [List.flatMap_cons, pushAll_append]

theorem indexCflowGraph_eq (orders : HashOrders) (g : ControlFlowGraph) (entry : UInt64) :
    let labels := (g.vertices orders.labels).filterMap g.vertexLabel
    let edges := (g.edgeList orders.edges).filterMap g.edgeEnds
    indexCflowGraph orders g entry =
      (pushAll ∅ (labels.flatMap tableEntries),
        pushAll ∅ (labels.flatMap outFalls ++ edges.flatMap fun edge => edgeOut edge.1 edge.2.1 edge.2.2),
        pushAll ((∅ : JumpTable).insert entry [(.undefined, .always)])
          (labels.flatMap inFalls ++ edges.flatMap fun edge => edgeIn edge.1 edge.2.1 edge.2.2)) := by
  simp only [indexCflowGraph, foldl_indexTarget, foldl_indexEdge, pushAll_append]

section
variable {decode : UInt64 → Except String Match} {start : UInt64} {work : Worklist}
  {labels : List ControlFlowTarget} {arcs : List Arc} {jumps : List Jump} {g : ControlFlowGraph}

theorem tableEntries_eq (lb : ControlFlowTarget) :
    tableEntries lb = (contents lb).map fun entry => (address entry, entry) := by
  cases lb <;> simp [tableEntries, contents, address]

private theorem tableEntries_perm (lists : g.Lists labels arcs)
    (run : ConnectsAll (placed decode start work) jumps labels arcs) (order : Enumeration Nat) :
    (((g.vertices order).filterMap g.vertexLabel).flatMap tableEntries).Perm
      ((entries decode work).map fun entry => (address entry, entry)) := by
  refine ((lists.labels_perm order).flatMap_right _).trans ?_
  obtain ⟨extras, rfl, unresolved⟩ := run.grows
  have nothing : extras.flatMap tableEntries = [] := by
    rw [List.flatMap_eq_nil_iff]
    intro lb member
    obtain ⟨target, rfl⟩ := unresolved lb member
    rfl
  rw [List.flatMap_append, nothing, List.append_nil, show tableEntries = _ from funext tableEntries_eq,
    ← List.map_flatMap]
  exact (by simpa using contents_pieces [] (entries decode work) : List.Perm _ _).map _

private theorem mnemonics_index (single : SingleMnemonic decode) (complete : Complete decode start work)
    (lists : g.Lists labels arcs) (run : ConnectsAll (placed decode start work) jumps labels arcs)
    (order : Enumeration Nat) :
    pushAll ∅ (((g.vertices order).filterMap g.vertexLabel).flatMap tableEntries) = work.mnemonics := by
  have perm := tableEntries_perm lists run order
  have distinct : ((((g.vertices order).filterMap g.vertexLabel).flatMap tableEntries).map Prod.fst).Nodup := by
    rw [(perm.map _).nodup_iff, List.map_map]
    exact (sorted single work).nodup
  apply Std.ExtTreeMap.ext_getElem?
  intro addr
  by_cases reached : Reached decode start addr
  · have member : (addr, entryAt decode addr) ∈ ((g.vertices order).filterMap g.vertexLabel).flatMap tableEntries := by
      rw [perm.mem_iff, List.mem_map]
      exact ⟨entryAt decode addr, (mem_entries complete _).mpr ⟨addr, reached, rfl⟩, by rw [address_entryAt single]⟩
    have found := getElem?_of_mem ((complete.visited addr).mpr reached)
    rw [getElem?_of_mem ((mem_pushAll ∅ _ addr).mpr (.inr ⟨_, member⟩)), valuesAt_pushAll_of_nodup distinct member,
      found, (complete.entries addr _ found).1]
  · have missing : addr ∉ work.mnemonics := fun member => reached ((complete.visited addr).mp member)
    have missing' : addr ∉ pushAll ∅ (((g.vertices order).filterMap g.vertexLabel).flatMap tableEntries) := by
      rw [mem_pushAll]
      rintro (member | ⟨entry, member⟩)
      · simp at member
      · rw [perm.mem_iff, List.mem_map] at member
        obtain ⟨other, inside, same⟩ := member
        cases same
        obtain ⟨addr, reached', rfl⟩ := (mem_entries complete entry).mp inside
        rw [address_entryAt single] at reached
        exact reached reached'
    rw [Std.ExtTreeMap.getElem?_eq_none missing, Std.ExtTreeMap.getElem?_eq_none missing']

/-- The edges of a graph as they are met. -/
abbrev edgesOf (g : ControlFlowGraph) (order : Enumeration Nat) : List Edge :=
  (g.edgeList order).filterMap g.edgeEnds

theorem mem_edgesOf (lists : g.Lists labels arcs) (order : Enumeration Nat) (gu : Guard) (src tgt : ControlFlowTarget) :
    (gu, src, tgt) ∈ edgesOf g order ↔
      ∃ i j, (gu, i, j) ∈ arcs ∧ labels[i]? = some src ∧ labels[j]? = some tgt := by
  have viewed := (lists.edges_perm order).mem_iff (a := (gu, some src, some tgt))
  constructor
  · intro member
    obtain ⟨⟨gu', i, j⟩, inside, same⟩ := List.mem_map.mp (viewed.mp (List.mem_map.mpr ⟨_, member, rfl⟩))
    simp only [Prod.mk.injEq] at same
    obtain ⟨rfl, source, target⟩ := same
    exact ⟨i, j, inside, source, target⟩
  · rintro ⟨i, j, inside, source, target⟩
    obtain ⟨⟨gu', src', tgt'⟩, member, same⟩ :=
      List.mem_map.mp (viewed.mpr (List.mem_map.mpr ⟨_, inside, by rw [source, target]⟩))
    simp only [Prod.mk.injEq, Option.some.injEq] at same
    obtain ⟨rfl, rfl, rfl⟩ := same
    exact member

private theorem mem_fallsFrom (mne : Mnemonic) (rest : List Mnemonic) (jump : Jump) :
    jump ∈ fallsFrom mne.area.start rest ↔ ∃ first second, [first, second] <:+: mne :: rest ∧
      jump = (first.area.start, .newU64 second.area.start, .always) := by
  induction rest generalizing mne with
  | nil => simp [fallsFrom, List.infix_cons_iff]
  | cons next rest ih =>
    rw [fallsFrom, List.mem_cons, ih]
    have split (first second : Mnemonic) : [first, second] <:+: mne :: next :: rest ↔
        first = mne ∧ second = next ∨ [first, second] <:+: next :: rest := by
      rw [List.infix_cons_iff]
      simp
    simp only [split]
    grind

private theorem mem_fallsInto (mne : Mnemonic) (rest : List Mnemonic) (jump : Jump) :
    jump ∈ fallsInto mne.area.start rest ↔ ∃ first second, [first, second] <:+: mne :: rest ∧
      jump = (second.area.start, .newU64 first.area.start, .always) := by
  induction rest generalizing mne with
  | nil => simp [fallsInto, List.infix_cons_iff]
  | cons next rest ih =>
    rw [fallsInto, List.mem_cons, ih]
    have split (first second : Mnemonic) : [first, second] <:+: mne :: next :: rest ↔
        first = mne ∧ second = next ∨ [first, second] <:+: next :: rest := by
      rw [List.infix_cons_iff]
      simp
    simp only [split]
    grind

theorem mem_outFalls (lb : ControlFlowTarget) (jump : Jump) :
    jump ∈ outFalls lb ↔ ∃ bb first second, lb = .resolved bb ∧ [first, second] <:+: bb.mnemonics ∧
      jump = (first.area.start, .newU64 second.area.start, .always) := by
  cases lb with
  | resolved bb =>
    obtain ⟨area, ms⟩ := bb
    cases ms with
    | nil => simp [outFalls]
    | cons mne ms => simp [outFalls, mem_fallsFrom]
  | failed pos msg => simp [outFalls]
  | unresolved target => simp [outFalls]

private theorem mem_inFalls (lb : ControlFlowTarget) (jump : Jump) :
    jump ∈ inFalls lb ↔ ∃ bb first second, lb = .resolved bb ∧ [first, second] <:+: bb.mnemonics ∧
      jump = (second.area.start, .newU64 first.area.start, .always) := by
  cases lb with
  | resolved bb =>
    obtain ⟨area, ms⟩ := bb
    cases ms with
    | nil => simp [inFalls]
    | cons mne ms => simp [inFalls, mem_fallsInto]
  | failed pos msg => simp [inFalls]
  | unresolved target => simp [inFalls]

def outEntries (orders : HashOrders) (g : ControlFlowGraph) : List Jump :=
  ((g.vertices orders.labels).filterMap g.vertexLabel).flatMap outFalls ++
    (edgesOf g orders.edges).flatMap fun edge => edgeOut edge.1 edge.2.1 edge.2.2

/-- Entries of the table of jumps by destination. -/
def inEntries (orders : HashOrders) (g : ControlFlowGraph) : List Jump :=
  ((g.vertices orders.labels).filterMap g.vertexLabel).flatMap inFalls ++
    (edgesOf g orders.edges).flatMap fun edge => edgeIn edge.1 edge.2.1 edge.2.2

/-- The graph assembled from the tables of another one. -/
def reassemble (orders : HashOrders) (g : ControlFlowGraph) (start : UInt64) : ControlFlowGraph :=
  let (mnemonics, bySource, byDestination) := indexCflowGraph orders g start
  assembleCflowGraph orders mnemonics bySource byDestination start

abbrev cutAgain (orders : HashOrders) (g : ControlFlowGraph) (start : UInt64) : Mnemonic → Mnemonic → Bool :=
  newBb (pushAll ∅ (outEntries orders g))
    (pushAll ((∅ : JumpTable).insert start [(.undefined, .always)]) (inEntries orders g)) start

abbrev jumpsAgain (orders : HashOrders) (g : ControlFlowGraph) : List Jump :=
  jumpList (orders.bySource.list (pushAll ∅ (outEntries orders g) : JumpTable).toList)

theorem reassembled (single : SingleMnemonic decode) (complete : Complete decode start work)
    (lists : g.Lists labels arcs) (run : ConnectsAll (placed decode start work) jumps labels arcs)
    (orders : HashOrders) :
    ∃ labels' arcs', ConnectsAll (pieces (cutAgain orders g start) [] (entries decode work)) (jumpsAgain orders g)
        labels' arcs' ∧ (reassemble orders g start).Lists labels' arcs' := by
  have tables := indexCflowGraph_eq orders g start
  simp only [mnemonics_index single complete lists run orders.labels] at tables
  simp only [reassemble, tables]
  exact connectAll_connects (sweepAll_lists (toList_eq complete.toInvariant)) orders.vertices _

/-- Edges to computed targets come from blocks of one mnemonic. -/
def ComputedFromSingle (g : ControlFlowGraph) : Prop :=
  ∀ e src dst target, g.source e = some src → g.target e = some dst →
    g.vertexLabel dst = some (.unresolved target) → target.constant? = none →
    ∃ bb mne, g.vertexLabel src = some (.resolved bb) ∧ bb.mnemonics = [mne]

def entryOf : ControlFlowTarget → UInt64
  | .resolved bb => bb.area.start
  | .failed pos _ => pos
  | .unresolved _ => 0

theorem enters_entryOf {tgt : ControlFlowTarget} (solid : ∀ target, tgt ≠ .unresolved target) (value : UInt64)
    (size : Nat) : enters (.constant value size) tgt = (entryOf tgt == value) := by
  cases tgt with
  | resolved _ | failed _ _ => rfl
  | unresolved target => exact absurd rfl (solid target)

theorem edgeOut_solid {tgt : ControlFlowTarget} (solid : ∀ target, tgt ≠ .unresolved target) (gu : Guard)
    (bb : BasicBlock) : edgeOut gu (.resolved bb) tgt = [(lastOf bb, .newU64 (entryOf tgt), gu)] := by
  cases tgt with
  | resolved _ | failed _ _ => rfl
  | unresolved target => exact absurd rfl (solid target)

theorem edgeIn_solid {tgt : ControlFlowTarget} (solid : ∀ target, tgt ≠ .unresolved target) (gu : Guard)
    (bb : BasicBlock) : edgeIn gu (.resolved bb) tgt = [(entryOf tgt, .newU64 (lastOf bb), gu)] := by
  cases tgt with
  | resolved _ | failed _ _ => rfl
  | unresolved target => exact absurd rfl (solid target)

theorem edgeOut_varying {r : Rvalue} (varying : r.constant? = none) (gu : Guard) (bb : BasicBlock) :
    edgeOut gu (.resolved bb) (.unresolved r) = [(bb.area.start, r, gu)] := by
  cases r with
  | constant _ _ => cases varying
  | undefined | var _ _ _ _ => rfl

private theorem edgeIn_varying {r : Rvalue} (varying : r.constant? = none) (gu : Guard) (bb : BasicBlock) :
    edgeIn gu (.resolved bb) (.unresolved r) = [] := by
  cases r with
  | constant _ _ => cases varying
  | undefined | var _ _ _ _ => rfl

theorem lastOf_eq {bb : BasicBlock} {mne : Mnemonic} (last : bb.mnemonics.getLast? = some mne) :
    lastOf bb = mne.area.start := by
  simp [lastOf, last]

private theorem edgeOut_computed {gu gu' : Guard} {src tgt : ControlFlowTarget} {origin : UInt64} {r : Rvalue}
    (member : (origin, r, gu) ∈ edgeOut gu' src tgt) (varying : r.constant? = none) :
    gu = gu' ∧ tgt = .unresolved r ∧
      ((∃ bb, src = .resolved bb ∧ origin = bb.area.start) ∨ ∃ pos msg, src = .failed pos msg) := by
  cases tgt with
  | resolved bb =>
    simp only [edgeOut, Option.mem_toList, Option.map_eq_some_iff, Prod.mk.injEq] at member
    obtain ⟨_, _, _, rfl, _⟩ := member
    cases varying
  | failed pos msg =>
    simp only [edgeOut, Option.mem_toList, Option.map_eq_some_iff, Prod.mk.injEq] at member
    obtain ⟨_, _, _, rfl, _⟩ := member
    cases varying
  | unresolved t =>
    cases src with
    | resolved bb =>
      cases t <;> cases List.mem_singleton.mp member
      · exact ⟨rfl, rfl, .inl ⟨bb, rfl, rfl⟩⟩
      · exact ⟨rfl, rfl, .inl ⟨bb, rfl, rfl⟩⟩
      · cases varying
    | failed pos msg =>
      cases t <;> cases List.mem_singleton.mp member
      · exact ⟨rfl, rfl, .inr ⟨_, msg, rfl⟩⟩
      · exact ⟨rfl, rfl, .inr ⟨_, msg, rfl⟩⟩
      · cases varying
    | unresolved _ => cases t <;> cases member

end

section
variable {decode : UInt64 → Except String Match} {start : UInt64} {work : Worklist}
  {labels : List ControlFlowTarget} {arcs : List Arc} {g : ControlFlowGraph}
  {order : Enumeration (UInt64 × List (Rvalue × Guard))}
variable (single : SingleMnemonic decode) (complete : Complete decode start work) (lists : g.Lists labels arcs)
  (run : ConnectsAll (placed decode start work) (jumpList (order.list work.bySource.toList)) labels arcs)
include single complete lists run

theorem edge_source {edges : Enumeration Nat} {gu : Guard} {src tgt : ControlFlowTarget}
    (member : (gu, src, tgt) ∈ edgesOf g edges) :
    (∃ bb, src = .resolved bb ∧ src ∈ placed decode start work) ∨
      ∃ value size, src = .unresolved (.constant value size) := by
  obtain ⟨i, j, arc, source, target⟩ := (mem_edgesOf lists edges gu src tgt).mp member
  obtain ⟨origin, value, from_, into, jump, source', leaving, -⟩ := run.arc arc
  rw [source] at source'
  cases source'
  cases src with
  | unresolved target =>
    cases target with
    | constant value size => exact .inr ⟨value, size, rfl⟩
    | undefined | var _ _ _ _ => cases leaving
  | resolved bb =>
    exact .inl ⟨bb, rfl, List.mem_of_getElem? (placed_of_label run source (by simp))⟩
  | failed pos msg =>
    obtain ⟨reached, listed⟩ := (mem_jumps single complete order _ _ _).mp jump
    obtain ⟨mne, decoded, rfl⟩ := jump_decoded single reached listed
    obtain ⟨bb, same, -⟩ := leaves_block single complete decoded
      (List.mem_of_getElem? (placed_of_label run source (by simp))) leaving
    cases same

omit complete lists in
private theorem unresolved_not_single {value : UInt64} {size : Nat} (member : .unresolved (.constant value size) ∈ labels)
    {bb : BasicBlock} {mne : Mnemonic} (inside : .resolved bb ∈ placed decode start work)
    (alone : bb.mnemonics = [mne]) : bb.area.start ≠ value := by
  rintro rfl
  obtain ⟨first, head, area⟩ := block_start cut_adjacent (sorted single work) inside
  rw [alone] at head
  cases head
  obtain ⟨origin, tgt, gu, _, ⟨same, absent⟩ | ⟨same, absent⟩⟩ :=
    run.unresolved member (unresolved_notMem_pieces [] _ _)
  · cases same
    have leaving := absent _ inside
    simp [leaves, alone, area] at leaving
  · subst same
    have entering := absent _ inside
    simp [enters] at entering

/-- A computed target is entered again only from where the blocks that lead to it start. -/
theorem again_computed (orders : HashOrders) {placed' labels' : List ControlFlowTarget} {arcs' : List Arc}
    (run' : ConnectsAll placed' (jumpsAgain orders g) labels' arcs') {gu : Guard} {i j : Nat}
    (arc : (gu, i, j) ∈ arcs') {from_ : ControlFlowTarget} {r : Rvalue} (source : labels'[i]? = some from_)
    (target : labels'[j]? = some (.unresolved r)) (varying : r.constant? = none) :
    ∃ bb, (gu, .resolved bb, .unresolved r) ∈ edgesOf g orders.edges ∧ leaves bb.area.start from_ = true := by
  obtain ⟨origin, tgt, from_', into, jump, source', leaving, target', entering⟩ := run'.arc arc
  rw [source] at source'
  rw [target] at target'
  cases source'
  cases target'
  cases (beq_iff_eq.mp entering : r = tgt)
  rw [mem_jumpList, mem_valuesAt_pushAll, outEntries, List.mem_append] at jump
  rcases jump with fall | edge
  · obtain ⟨lb, -, falls⟩ := List.mem_flatMap.mp fall
    obtain ⟨_, _, _, _, _, same⟩ := (mem_outFalls lb _).mp falls
    cases same
    cases varying
  · obtain ⟨⟨gu', src, tgt'⟩, member, out⟩ := List.mem_flatMap.mp edge
    obtain ⟨rfl, rfl, ⟨bb, rfl, rfl⟩ | ⟨pos, msg, rfl⟩⟩ := edgeOut_computed out varying
    · exact ⟨bb, member, leaving⟩
    · rcases edge_source single complete lists run member with ⟨_, same, _⟩ | ⟨_, _, same⟩ <;> cases same

/-- When the graph is reproduced, computed targets are entered from blocks of one mnemonic. -/
theorem single_of_isomorphic {orders : HashOrders} (same : g.Isomorphic (reassemble orders g start)) :
    ComputedFromSingle g := by
  obtain ⟨labels', arcs', run', lists'⟩ := reassembled single complete lists run orders
  obtain ⟨vertexMap, edgeMap, vertices, ends⟩ := same
  have table := sorted single work
  -- every edge to a computed target has a counterpart that leaves where some block starts
  have counterpart {gu : Guard} {src : ControlFlowTarget} {r : Rvalue}
      (member : (gu, src, .unresolved r) ∈ edgesOf g orders.edges) (varying : r.constant? = none) :
      ∃ bb, (gu, .resolved bb, .unresolved r) ∈ edgesOf g orders.edges ∧ leaves bb.area.start src = true := by
    obtain ⟨i, j, arc, source, target⟩ := (mem_edgesOf lists orders.edges _ _ _).mp member
    obtain ⟨e, found⟩ := List.mem_iff_getElem?.mp arc
    obtain ⟨guard, first, last⟩ := ends e
    simp only [edgeLabel, AdjacencyList.source, AdjacencyList.target, lists.guards, lists'.guards, lists.ends,
      lists'.ends, found, Option.map_some] at guard first last
    have arc' : (gu, vertexMap i, vertexMap j) ∈ arcs' := by
      cases found' : arcs'[edgeMap e]? with
      | none => simp [found'] at guard
      | some other =>
        simp only [found', Option.map_some, Option.some.injEq] at guard first last
        rw [← guard, ← first, ← last]
        exact List.mem_of_getElem? found'
    refine again_computed single complete lists run orders run' arc' (r := r) ?_ ?_ varying
    · rw [← lists'.vertexLabel, vertices, lists.vertexLabel, source]
    · rw [← lists'.vertexLabel, vertices, lists.vertexLabel, target]
  -- a block among them ends where it starts
  have alone {gu : Guard} {bb : BasicBlock} {r : Rvalue}
      (member : (gu, .resolved bb, .unresolved r) ∈ edgesOf g orders.edges) (varying : r.constant? = none) :
      ∃ mne, bb.mnemonics = [mne] := by
    obtain ⟨other, member', leaving⟩ := counterpart member varying
    have inside : .resolved bb ∈ placed decode start work := by
      rcases edge_source single complete lists run member with ⟨_, _, inside⟩ | ⟨_, _, impossible⟩
      · exact inside
      · cases impossible
    have inside' : .resolved other ∈ placed decode start work := by
      rcases edge_source single complete lists run member' with ⟨_, _, inside⟩ | ⟨_, _, impossible⟩
      · exact inside
      · cases impossible
    obtain ⟨first, head, area⟩ := block_start cut_adjacent table inside'
    have here := table.vertex_unique inside inside' (leaves_address inside leaving)
      (area ▸ List.mem_map_of_mem (List.mem_of_head? head))
    cases here
    exact block_single cut_adjacent table inside leaving
  intro e src dst target source last label varying
  obtain ⟨gu, from_, into, arc, first, second⟩ := lists.arc_of_edge source last
  rw [lists.vertexLabel, second] at label
  cases label
  rw [lists.vertexLabel, first]
  have member := (mem_edgesOf lists orders.edges gu _ _).mpr ⟨src, dst, arc, first, second⟩
  rcases edge_source single complete lists run member with ⟨bb, rfl, _⟩ | ⟨value, size, rfl⟩
  · obtain ⟨mne, one⟩ := alone member varying
    exact ⟨bb, mne, rfl, one⟩
  · obtain ⟨bb, member', leaving⟩ := counterpart member varying
    obtain ⟨mne, one⟩ := alone member' varying
    rcases edge_source single complete lists run member' with ⟨_, _, inside⟩ | ⟨_, _, impossible⟩
    · exact absurd (beq_iff_eq.mp leaving).symm
        (unresolved_not_single single run (List.mem_of_getElem? first) inside one)
    · cases impossible

variable (simple : ComputedFromSingle g)
include simple

theorem no_constants : NoConstants labels := by
  refine (run.constants (fits single complete order) (List.Subset.refl _)).resolve_right ?_
  rintro ⟨_, tgt, gu, src, dst, _, varying, _, arc, source, target⟩
  obtain ⟨e, -, first, last⟩ := lists.edge_of_arc arc
  obtain ⟨bb, _, label, _⟩ := simple e src dst tgt first last (by rw [lists.vertexLabel, target]) varying
  rw [lists.vertexLabel, source] at label
  cases label

/-- Every edge leaves a block, and one with a single mnemonic if the target is computed. -/
theorem edge_cases {edges : Enumeration Nat} {gu : Guard} {src tgt : ControlFlowTarget}
    (member : (gu, src, tgt) ∈ edgesOf g edges) :
    ∃ bb, src = .resolved bb ∧ .resolved bb ∈ placed decode start work ∧ (tgt ∈ placed decode start work ∨
      ∃ r mne, tgt = .unresolved r ∧ r.constant? = none ∧ bb.mnemonics = [mne]) := by
  have none := no_constants single complete lists run simple
  obtain ⟨i, j, arc, source, target⟩ := (mem_edgesOf lists edges gu src tgt).mp member
  rcases edge_source single complete lists run member with ⟨bb, rfl, inside⟩ | ⟨value, size, rfl⟩
  · refine ⟨bb, rfl, inside, ?_⟩
    cases tgt with
    | resolved _ | failed _ _ => exact .inl (List.mem_of_getElem? (placed_of_label run target (by simp)))
    | unresolved r =>
      cases fixed : r.constant? with
      | some value =>
        cases r with
        | constant value size => exact absurd (List.mem_of_getElem? target) (none value size)
        | undefined | var _ _ _ _ => cases fixed
      | none =>
        obtain ⟨e, -, first, last⟩ := lists.edge_of_arc arc
        obtain ⟨other, mne, label, alone⟩ := simple e i j r first last (by rw [lists.vertexLabel, target]) fixed
        rw [lists.vertexLabel, source] at label
        cases label
        exact .inr ⟨r, mne, rfl, fixed, alone⟩
  · exact absurd (List.mem_of_getElem? source) (none value size)

theorem edge_of_jump (edges : Enumeration Nat) {origin : UInt64} {tgt : Rvalue} {gu : Guard} {from_ : ControlFlowTarget}
    (listed : (origin, tgt, gu) ∈ jumpList (order.list work.bySource.toList))
    (member : from_ ∈ placed decode start work) (leaving : leaves origin from_ = true) :
    (gu, from_, destination (placed decode start work) tgt) ∈ edgesOf g edges := by
  have fitting := fits single complete order
  have none := no_constants single complete lists run simple
  have viewed : (gu, some from_, some (destination (placed decode start work) tgt)) ∈ view labels arcs := by
    rw [(run.exact fitting (List.Subset.refl _) none).1, List.mem_filterMap]
    exact ⟨_, listed, by simp [expected, fitting.find_leaves member leaving]⟩
  obtain ⟨⟨gu', i, j⟩, arc, same⟩ := List.mem_map.mp viewed
  simp only [Prod.mk.injEq] at same
  obtain ⟨rfl, source, target⟩ := same
  exact (mem_edgesOf lists edges _ _ _).mpr ⟨i, j, arc, source, target⟩

omit single complete lists run simple in
theorem placed_solid {lb : ControlFlowTarget} (member : lb ∈ placed decode start work) (target : Rvalue) :
    lb ≠ .unresolved target := by
  rintro rfl
  exact unresolved_notMem_pieces [] _ target member

omit single complete lists run simple in
theorem leaves_lastOf {bb : BasicBlock} (inside : .resolved bb ∈ placed decode start work) :
    leaves (lastOf bb) (.resolved bb) = true := by
  have last := List.getLast?_eq_some_getLast (block_nonempty inside)
  simp [leaves, lastOf_eq last, last]

private theorem edge_expected {edges : Enumeration Nat} {gu : Guard} {src tgt : ControlFlowTarget}
    (member : (gu, src, tgt) ∈ edgesOf g edges) :
    (edgeOut gu src tgt).filterMap (expected (placed decode start work)) = [(gu, some src, some tgt)] := by
  have fitting := fits single complete order
  obtain ⟨bb, rfl, inside, target⟩ := edge_cases single complete lists run simple member
  have last := fitting.find_leaves inside (leaves_lastOf inside)
  rcases target with target | ⟨r, mne, rfl, varying, alone⟩
  · have solid := placed_solid target
    have into : destination _ (.constant (entryOf tgt) 64) = tgt :=
      fitting.destination_constant target (by simp [enters_entryOf solid])
    simp [edgeOut_solid solid, Rvalue.newU64, expected, last, into]
  · obtain ⟨first, head, area⟩ := block_start cut_adjacent (sorted single work) inside
    have same : lastOf bb = bb.area.start := by
      rw [alone] at head
      cases head
      have last : bb.mnemonics.getLast? = some mne := by rw [alone]; rfl
      rw [area, lastOf_eq last]
    rw [same] at last
    simp [edgeOut_varying varying, expected, last, fitting.destination_nonconstant varying]

omit single complete run simple in
theorem mem_outEntries (orders : HashOrders) (jump : Jump) :
    jump ∈ outEntries orders g ↔ (∃ lb ∈ labels, jump ∈ outFalls lb) ∨
      ∃ gu src tgt, (gu, src, tgt) ∈ edgesOf g orders.edges ∧ jump ∈ edgeOut gu src tgt := by
  simp only [outEntries, List.mem_append, List.mem_flatMap, (lists.labels_perm orders.labels).mem_iff, Prod.exists]

omit single complete run simple in
theorem mem_inEntries (orders : HashOrders) (jump : Jump) :
    jump ∈ inEntries orders g ↔ (∃ lb ∈ labels, jump ∈ inFalls lb) ∨
      ∃ gu src tgt, (gu, src, tgt) ∈ edgesOf g orders.edges ∧ jump ∈ edgeIn gu src tgt := by
  simp only [inEntries, List.mem_append, List.mem_flatMap, (lists.labels_perm orders.labels).mem_iff, Prod.exists]

omit lists simple in
theorem fall_follows {bb : BasicBlock} (label : .resolved bb ∈ labels) {first second : Mnemonic}
    (pair : [first, second] <:+: bb.mnemonics) : FallsThrough decode start first second := by
  obtain ⟨v, found⟩ := List.mem_iff_getElem?.mp label
  have member := List.mem_of_getElem? (placed_of_label run found (by simp))
  exact (follows_iff_fallsThrough single complete first second).mp ((follows_iff first second).mpr ⟨bb, member, pair⟩)

private theorem cutAgain_eq_false (orders : HashOrders) {mne next : Mnemonic} (falls : FallsThrough decode start mne next) :
    cutAgain orders g start mne next = false := by
  simp only [cutAgain, newBb, Bool.or_eq_false_iff, bne_eq_false_iff_eq, beq_eq_false_iff_ne, otherConstant_eq_false]
  refine ⟨⟨⟨falls.adjacent, ?_⟩, ?_⟩, falls.inner⟩
  · intro value size gu member
    rw [mem_valuesAt_pushAll, mem_outEntries lists] at member
    rcases member with ⟨lb, label, fall⟩ | ⟨gu', src, tgt, edge, out⟩
    · obtain ⟨bb, first, second, rfl, pair, same⟩ := (mem_outFalls lb _).mp fall
      simp only [Prod.mk.injEq, Rvalue.newU64, Rvalue.constant.injEq] at same
      obtain ⟨_, _, _, jump⟩ := (fall_follows single complete run label pair).jump
      rw [← same.1] at jump
      rw [same.2.1.1, falls.outgoing _ _ _ _ jump]
    · obtain ⟨bb, rfl, inside, target⟩ := edge_cases single complete lists run simple edge
      rcases target with target | ⟨r, _, rfl, varying, _⟩
      · rw [edgeOut_solid (placed_solid target), List.mem_singleton, Prod.mk.injEq] at out
        have leaving := leaves_lastOf inside
        rw [← out.1] at leaving
        exact absurd ⟨next, falls⟩ ((ends_iff single complete falls.first).mp ⟨_, inside, leaving⟩)
      · rw [edgeOut_varying varying, List.mem_singleton, Prod.mk.injEq, Prod.mk.injEq] at out
        rw [← out.2.1] at varying
        cases varying
  · intro value size gu member
    rw [valuesAt_pushAll, List.mem_append] at member
    rcases member with initial | member
    · simp only [valuesAt, Std.ExtTreeMap.getElem?_insert] at initial
      split at initial <;> simp at initial
    · have listed : (next.area.start, .constant value size, gu) ∈ inEntries orders g := by
        simpa using member
      rw [mem_inEntries lists] at listed
      rcases listed with ⟨lb, label, fall⟩ | ⟨gu', src, tgt, edge, into⟩
      · obtain ⟨bb, first, second, rfl, pair, same⟩ := (mem_inFalls lb _).mp fall
        simp only [Prod.mk.injEq, Rvalue.newU64, Rvalue.constant.injEq] at same
        have falls' := fall_follows single complete run label pair
        obtain ⟨_, _, _, jump⟩ := falls'.jump
        rw [← same.1] at jump
        rw [same.2.1.1, falls.incoming _ falls'.first.1 _ _ _ jump]
      · obtain ⟨bb, rfl, inside, target⟩ := edge_cases single complete lists run simple edge
        rcases target with target | ⟨r, _, rfl, varying, _⟩
        · rw [edgeIn_solid (placed_solid target), List.mem_singleton, Prod.mk.injEq] at into
          refine absurd ⟨mne, falls⟩ ((begins_iff single complete falls.second 64).mp ⟨_, target, ?_⟩)
          simp [enters_entryOf (placed_solid target), ← into.1]
        · rw [edgeIn_varying varying] at into
          cases into

private theorem cut_eq_false (orders : HashOrders) {mne next : Mnemonic}
    (pair : [mne, next] <:+: (entries decode work).filterMap mnemonic?)
    (again : cutAgain orders g start mne next = false) : cut work start mne next = false := by
  have table := sorted single work
  by_contra separate
  have first := (mnemonic_mem single complete mne).mp ((mem_mnemonics mne).mp (pair.subset (by simp)))
  have second := (mnemonic_mem single complete next).mp ((mem_mnemonics next).mp (pair.subset (by simp)))
  -- so one of them ends a block and the other begins one
  obtain ⟨from_, inside, leaving⟩ := (ends_iff single complete first).mpr <| by
    rintro ⟨other, falls⟩
    have follows := (follows_iff_fallsThrough single complete mne other).mpr falls
    have same := table.next_unique pair follows.1
    cases table.unique ((mnemonic_mem single complete next).mpr second)
      ((mnemonic_mem single complete other).mpr falls.second) same
    exact separate follows.2
  obtain ⟨into, inside', entering⟩ := (begins_iff single complete second 64).mpr <| by
    rintro ⟨other, falls⟩
    have follows := (follows_iff_fallsThrough single complete other next).mpr falls
    have same := table.prev_unique pair follows.1
    cases table.unique ((mnemonic_mem single complete mne).mpr first)
      ((mnemonic_mem single complete other).mpr falls.first) same
    exact separate follows.2
  obtain ⟨bb, rfl, last⟩ := leaves_block single complete first inside leaving
  apply separate
  simp only [cutAgain, newBb, Bool.or_eq_false_iff, bne_eq_false_iff_eq, beq_eq_false_iff_ne,
    otherConstant_eq_false] at again
  simp only [cut, newBb, Bool.or_eq_false_iff, bne_eq_false_iff_eq, beq_eq_false_iff_ne, otherConstant_eq_false]
  obtain ⟨⟨⟨adjacent, outgoing⟩, incoming⟩, inner⟩ := again
  refine ⟨⟨⟨adjacent, ?_⟩, ?_⟩, inner⟩
  · intro value size gu member
    have listed := (Connect.mem_jumpList order work.bySource _ _ _).mpr member
    have edge := edge_of_jump single complete lists run simple orders.edges listed inside leaving
    have entering := (fits single complete order).destination_enters listed inside leaving
    obtain ⟨_, _, _, target⟩ := edge_cases single complete lists run simple edge
    rcases target with target | ⟨r, _, same, varying, _⟩
    · rw [enters_entryOf (placed_solid target), beq_iff_eq] at entering
      refine outgoing value 64 gu ?_
      rw [mem_valuesAt_pushAll, mem_outEntries lists]
      refine .inr ⟨gu, _, _, edge, ?_⟩
      rw [edgeOut_solid (placed_solid target), entering, lastOf_eq last]
      exact List.mem_singleton.mpr rfl
    · rw [same] at entering
      cases (beq_iff_eq.mp entering : r = .constant value size)
      cases varying
  · intro value size gu member
    rw [complete.byDestination] at member
    rcases member with ⟨_, impossible, _⟩ | ⟨origin, visited, same, width, jump⟩
    · cases impossible
    · cases same
      have reached := (complete.visited _).mp visited
      have listed := (mem_jumps single complete order _ _ _).mpr ⟨reached, jump⟩
      have entering' : enters (.constant next.area.start width) into = true := by
        rw [enters_entryOf (placed_solid inside')] at entering ⊢
        exact entering
      obtain ⟨lb, inside'', leaving'⟩ := ((fits single complete order).matched _ _ _ _ listed).mpr
        ⟨into, inside', entering'⟩
      obtain ⟨prev, decoded, at_⟩ := jump_decoded single reached jump
      subst at_
      obtain ⟨bb', rfl, last'⟩ := leaves_block single complete decoded inside'' leaving'
      have edge := edge_of_jump single complete lists run simple orders.edges listed inside'' leaving'
      rw [(fits single complete order).destination_constant inside' entering'] at edge
      refine incoming _ 64 gu ?_
      rw [valuesAt_pushAll, List.mem_append]
      right
      have entry : (next.area.start, .newU64 prev.area.start, gu) ∈ inEntries orders g := by
        rw [mem_inEntries lists]
        refine .inr ⟨gu, _, _, edge, ?_⟩
        rw [enters_entryOf (placed_solid inside'), beq_iff_eq] at entering
        rw [edgeIn_solid (placed_solid inside'), entering, lastOf_eq last']
        exact List.mem_singleton.mpr rfl
      simpa [Rvalue.newU64] using entry

private theorem placed_again (orders : HashOrders) :
    pieces (cutAgain orders g start) [] (entries decode work) = placed decode start work := by
  apply pieces_congr
  intro mne next pair
  rw [List.nil_append] at pair
  cases again : cutAgain orders g start mne next with
  | false => rw [cut_eq_false single complete lists run simple orders pair again]
  | true =>
    by_contra joined
    have follows : Follows (cut work start) (entries decode work) mne next := ⟨pair, by simpa using joined⟩
    have falls := (follows_iff_fallsThrough single complete mne next).mp follows
    rw [cutAgain_eq_false single complete lists run simple orders falls] at again
    cases again

/-- The entries of the second table are the jumps out of blocks and those inside blocks. -/
theorem fits_again (orders : HashOrders) : Fits (placed decode start work) (jumpsAgain orders g) := by
  have fitting := fits single complete order
  refine ⟨fitting.solid, fitting.leaving, fitting.entering, ?_⟩
  intro origin value size gu jump
  rw [Connect.mem_jumpList, mem_valuesAt_pushAll, mem_outEntries lists] at jump
  rcases jump with ⟨lb, label, fall⟩ | ⟨gu', src, tgt, edge, out⟩
  · obtain ⟨bb, first, second, rfl, pair, same⟩ := (mem_outFalls lb _).mp fall
    cases same
    have falls := fall_follows single complete run label pair
    rw [ends_iff single complete falls.first, begins_iff single complete falls.second]
    exact iff_of_false (fun nothing => nothing ⟨second, falls⟩) (fun nothing => nothing ⟨first, falls⟩)
  · obtain ⟨bb, rfl, inside, target⟩ := edge_cases single complete lists run simple edge
    rcases target with target | ⟨r, _, rfl, varying, _⟩
    · rw [edgeOut_solid (placed_solid target), List.mem_singleton] at out
      cases out
      refine iff_of_true ⟨_, inside, leaves_lastOf inside⟩ ⟨_, target, ?_⟩
      simp [enters_entryOf (placed_solid target)]
    · rw [edgeOut_varying varying, List.mem_singleton] at out
      cases out
      cases varying

theorem computed_again (orders : HashOrders) (origin : UInt64) (tgt : Rvalue) (gu : Guard)
    (varying : tgt.constant? = none) :
    (origin, tgt, gu) ∈ jumpsAgain orders g ↔ ∃ bb mne, (gu, .resolved bb, .unresolved tgt) ∈ edgesOf g orders.edges ∧
      .resolved bb ∈ placed decode start work ∧ bb.mnemonics = [mne] ∧ mne.area.start = origin := by
  rw [Connect.mem_jumpList, mem_valuesAt_pushAll, mem_outEntries lists]
  constructor
  · rintro (⟨lb, label, fall⟩ | ⟨gu', src, tgt', edge, out⟩)
    · obtain ⟨_, _, _, _, _, same⟩ := (mem_outFalls lb _).mp fall
      cases same
      cases varying
    · obtain ⟨bb, rfl, inside, target⟩ := edge_cases single complete lists run simple edge
      rcases target with target | ⟨r, mne, rfl, varying', alone⟩
      · rw [edgeOut_solid (placed_solid target), List.mem_singleton] at out
        cases out
        cases varying
      · rw [edgeOut_varying varying', List.mem_singleton] at out
        cases out
        obtain ⟨first, head, area⟩ := block_start cut_adjacent (sorted single work) inside
        rw [alone] at head
        cases head
        exact ⟨bb, mne, edge, inside, alone, area.symm⟩
  · rintro ⟨bb, mne, edge, inside, alone, rfl⟩
    obtain ⟨first, head, area⟩ := block_start cut_adjacent (sorted single work) inside
    rw [alone] at head
    cases head
    refine .inr ⟨gu, _, _, edge, ?_⟩
    rw [edgeOut_varying varying, area]
    exact List.mem_singleton.mpr rfl

private theorem expected_again (orders : HashOrders) :
    ((jumpsAgain orders g).filterMap (expected (placed decode start work))).Perm (view labels arcs) := by
  have table : (jumpsAgain orders g).Perm (outEntries orders g) :=
    (flatten_perm (orders.bySource.perm _)).trans (flatten_pushAll _)
  have inner : (((g.vertices orders.labels).filterMap g.vertexLabel).flatMap outFalls).filterMap
      (expected (placed decode start work)) = [] := by
    rw [List.filterMap_eq_nil_iff]
    intro jump member
    obtain ⟨lb, label, fall⟩ := List.mem_flatMap.mp member
    rw [(lists.labels_perm orders.labels).mem_iff] at label
    obtain ⟨bb, first, second, rfl, pair, rfl⟩ := (mem_outFalls lb jump).mp fall
    have falls := fall_follows single complete run label pair
    have absent : (placed decode start work).find? (leaves first.area.start) = none := by
      rw [List.find?_eq_none]
      intro lb inside leaving
      exact (ends_iff single complete falls.first).mp ⟨lb, inside, leaving⟩ ⟨second, falls⟩
    simp [expected, absent]
  have outer : ((edgesOf g orders.edges).flatMap fun edge => edgeOut edge.1 edge.2.1 edge.2.2).filterMap
      (expected (placed decode start work)) =
        (edgesOf g orders.edges).map fun edge => (edge.1, some edge.2.1, some edge.2.2) := by
    have each (edges : List Edge) (known : edges ⊆ edgesOf g orders.edges) :
        (edges.flatMap fun edge => edgeOut edge.1 edge.2.1 edge.2.2).filterMap (expected (placed decode start work)) =
          edges.map fun edge => (edge.1, some edge.2.1, some edge.2.2) := by
      induction edges with
      | nil => rfl
      | cons edge edges ih =>
        have here := edge_expected single complete lists run simple (known List.mem_cons_self)
        rw [List.flatMap_cons, List.filterMap_append, here, ih fun other member => known (List.mem_cons_of_mem _ member)]
        rfl
    exact each _ (List.Subset.refl _)
  refine (table.filterMap _).trans ?_
  rw [outEntries, List.filterMap_append, inner, List.nil_append, outer]
  exact lists.edges_perm orders.edges

private theorem unresolved_again (orders : HashOrders) (free : NoConstants labels) (tgt : Rvalue) :
    .unresolved tgt ∈ labels ↔ tgt.constant? = none ∧ ∃ origin gu, (origin, tgt, gu) ∈ jumpsAgain orders g ∧
      ∃ from_ ∈ placed decode start work, leaves origin from_ = true := by
  obtain ⟨_, extras, rfl, _, listed⟩ := run.exact (fits single complete order) (List.Subset.refl _) free
  constructor
  · intro member
    have extra := (List.mem_append.mp member).resolve_left (unresolved_notMem_pieces [] _ tgt)
    obtain ⟨origin, _, gu, same, varying, jump, from_, inside, leaving⟩ := (listed _).mp extra
    cases same
    have edge := edge_of_jump single complete lists run simple orders.edges jump inside leaving
    rw [(fits single complete order).destination_nonconstant varying] at edge
    obtain ⟨bb, rfl, _, target⟩ := edge_cases single complete lists run simple edge
    rcases target with target | ⟨_, mne, _, _, alone⟩
    · exact absurd target (unresolved_notMem_pieces [] _ tgt)
    · refine ⟨varying, mne.area.start, gu, ?_, .resolved bb, inside, by simp [leaves, alone]⟩
      exact (computed_again single complete lists run simple orders _ _ _ varying).mpr
        ⟨bb, mne, edge, inside, alone, rfl⟩
  · rintro ⟨varying, origin, gu, jump, _⟩
    obtain ⟨bb, mne, edge, _⟩ := (computed_again single complete lists run simple orders _ _ _ varying).mp jump
    obtain ⟨_, j, _, _, target⟩ := (mem_edgesOf lists orders.edges _ _ _).mp edge
    exact List.mem_of_getElem? target

/-- When computed targets are entered from blocks of one mnemonic, the graph is reproduced. -/
theorem isomorphic_of_single (orders : HashOrders) : g.Isomorphic (reassemble orders g start) := by
  obtain ⟨labels', arcs', run', lists'⟩ := reassembled single complete lists run orders
  rw [placed_again single complete lists run simple orders] at run'
  have fitting := fits_again single complete lists run simple orders
  have none := no_constants single complete lists run simple
  have none' : NoConstants labels' := by
    refine (run'.constants fitting (List.Subset.refl _)).resolve_right ?_
    rintro ⟨origin, tgt, gu, _, _, jump, varying, inner, _⟩
    obtain ⟨bb, mne, _, inside, alone, rfl⟩ :=
      (computed_again single complete lists run simple orders origin tgt gu varying).mp jump
    have leaving := inner _ inside
    simp [leaves, alone] at leaving
  have unresolved := unresolved_again single complete lists run simple orders none
  have edges := expected_again single complete lists run simple orders
  obtain ⟨_, extras, rfl, nodup, listed⟩ := run.exact (fits single complete order) (List.Subset.refl _) none
  obtain ⟨viewed', extras', rfl, nodup', listed'⟩ := run'.exact fitting (List.Subset.refl _) none'
  have same : extras.Perm extras' := by
    rw [List.perm_ext_iff_of_nodup nodup nodup']
    intro lb
    rw [listed']
    constructor
    · intro member
      obtain ⟨_, tgt, _, rfl, _⟩ := (listed lb).mp member
      obtain ⟨varying, origin, gu, facts⟩ := (unresolved tgt).mp (List.mem_append_right _ member)
      exact ⟨origin, tgt, gu, rfl, varying, facts⟩
    · rintro ⟨origin, tgt, gu, rfl, varying, facts⟩
      exact (List.mem_append.mp ((unresolved tgt).mpr ⟨varying, origin, gu, facts⟩)).resolve_left
        (unresolved_notMem_pieces [] _ tgt)
  have distinct : (placed decode start work ++ extras').Nodup := by
    rw [List.nodup_append]
    refine ⟨(sorted single work).pieces_nodup, nodup', ?_⟩
    rintro lb member _ member' rfl
    obtain ⟨_, tgt, _, rfl, _⟩ := (listed' lb).mp member'
    exact unresolved_notMem_pieces [] _ tgt member
  refine lists.isomorphic lists' (same.append_left _) distinct ?_
  rw [viewed']
  exact edges.symm

end

section
variable {Region : Type} {arch : Architecture Region} {orders : HashOrders} {fuel : Nat} {start : UInt64}
  {region : Region} {regionName : String} {name : Option String} {init : arch.Configuration} {uuid : Uuid}

/-- Flattening and assembling a recovered graph reproduces it exactly when every edge to a
computed target leaves a block of one mnemonic. -/
theorem reassemble_isomorphic_iff {f : Function} (single : SingleMnemonic (arch.decode region · init))
    (recovered : Function.new arch orders fuel start region regionName name init uuid = some (.ok f))
    (again : HashOrders) :
    f.cflowGraph.Isomorphic (reassemble again f.cflowGraph start) ↔ ComputedFromSingle f.cflowGraph := by
  obtain ⟨work, complete, graph, -⟩ := new_cases single recovered
  obtain ⟨labels, arcs, run, lists⟩ := assembled complete orders
  rw [← graph] at lists
  exact ⟨fun same => single_of_isomorphic single complete lists run same,
    fun simple => isomorphic_of_single single complete lists run simple again⟩

theorem reassemble_isomorphic_iff_twoInARow :
    ∃ f, Function.new twoInARow .canonical 4 0 () "code" none () 0 = some (.ok f) ∧
      (f.cflowGraph.Isomorphic (reassemble .canonical f.cflowGraph 0) ↔ ComputedFromSingle f.cflowGraph) := by
  obtain ⟨f, recovered, -⟩ := recovers_with (Function.new twoInARow .canonical 4 0 () "code" none () 0)
    (fun _ => true) (by decide)
  exact ⟨f, recovered, reassemble_isomorphic_iff (listing_single _ (by decide)) recovered .canonical⟩

/-- The jump to a computed target at the end of a block of two mnemonics is not put back. -/
theorem twoInARow_not_reassembled :
    ∃ f, Function.new twoInARow .canonical 4 0 () "code" none () 0 = some (.ok f) ∧
      ¬ f.cflowGraph.Isomorphic (reassemble .canonical f.cflowGraph 0) := by
  obtain ⟨f, recovered, computed⟩ := recovers_with (Function.new twoInARow .canonical 4 0 () "code" none () 0)
    (fun f => (f.cflowGraph.edgeLabel 0).isSome && (reassemble .canonical f.cflowGraph 0).edgeLabels.isEmpty)
    (by decide)
  refine ⟨f, recovered, ?_⟩
  rintro ⟨_, edgeMap, _, ends⟩
  obtain ⟨present, empty⟩ := Bool.and_eq_true_iff.mp computed
  rw [← (ends 0).1, AdjacencyList.edgeLabel, Std.ExtTreeMap.isEmpty_iff.mp empty] at present
  simp at present

end
end Panopticon.Proofs.Resume
