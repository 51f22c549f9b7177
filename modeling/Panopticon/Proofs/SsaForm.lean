import Panopticon.Proofs.Liveness
import Panopticon.Proofs.PhiPlacement

/-! The result of a conversion is in SSA form: versions are assigned once, uses are
dominated by what they use, phi functions have an operand for each edge, and
nothing but subscripts and inserted mnemonics has changed. -/

namespace Panopticon.Proofs.SsaForm
open Library Ssa Proofs.Versions Proofs.Renaming Proofs.PhiPlacement Proofs.Liveness AdjacencyList

/-- A function without subscripts and phi functions on a consistent graph. -/
structure Plain (f : Function) : Prop where
  valid : f.cflowGraph.Consistent
  labels : ∀ v lb, f.cflowGraph.vertexLabel v = some lb → lb.strip = lb
  guards : ∀ e gu, f.cflowGraph.edgeLabel e = some gu → gu.strip = gu
  noPhi : ∀ v, ∀ stmt ∈ statementsAt f.cflowGraph v, stmt.op.isPhi = false

/-- No mnemonic has the opcode the pass gives to its phi functions. -/
def Unreserved (f : Function) : Prop :=
  ∀ v bb, f.cflowGraph.vertexLabel v = some (.resolved bb) → ∀ mne ∈ bb.mnemonics, mne.opcode ≠ "__phi"

theorem plain_of_check {f : Function} (valid : f.cflowGraph.Consistent)
    (labels : f.cflowGraph.vertexLabels.toList.all (fun entry => entry.2.strip == entry.2 &&
      entry.2.statements.all fun stmt => !stmt.op.isPhi) = true)
    (guards : f.cflowGraph.edgeLabels.toList.all (fun entry => entry.2.strip == entry.2) = true) : Plain f := by
  simp only [List.all_eq_true, Bool.and_eq_true, beq_iff_eq, Prod.forall,
    Std.ExtTreeMap.mem_toList_iff_getElem?_eq_some, Bool.not_eq_true'] at labels guards
  refine ⟨valid, fun v lb found => (labels v lb found).1, guards, ?_⟩
  intro v stmt member
  unfold statementsAt at member
  cases found : f.cflowGraph.vertexLabel v with
  | none => simp [found] at member
  | some lb => exact (labels v lb found).2 stmt (by simpa [found] using member)

private theorem unreserved_of_check {f : Function}
    (opcodes : f.cflowGraph.vertexLabels.toList.all (fun entry => match entry.2 with
      | .resolved bb => bb.mnemonics.all (·.opcode != "__phi")
      | _ => true) = true) : Unreserved f := by
  simp only [List.all_eq_true, Prod.forall, Std.ExtTreeMap.mem_toList_iff_getElem?_eq_some] at opcodes
  intro v bb found mne member
  have all := opcodes v _ found
  simp only [List.all_eq_true, bne_iff_ne] at all
  exact all mne member

/-- Everything a successful conversion has computed and done. -/
structure Converted (f : Function) (g g' : ControlFlowGraph) (filled : List Nat) (lens : Lengths) (names : List String)
    (usage : Usage) (idom : DominatorTable) (df : Panopticon.Dominator.Frontiers) (phis : List (String × Nat))
    (lin : Nat → List Nat) : Prop where
  plain : Plain f
  inserted : Inserted f.cflowGraph g f.entryPoint lens names usage df phis
  prepared : Prepared g f.entryPoint
  renamed : Renamed g g' f.entryPoint filled idom lin
  globals : ∀ x, x ∈ names ↔ ∃ v, (f.cflowGraph.vertexLabel v).isSome ∧ Exposes (accessesAt f.cflowGraph v) x
  usages : ∀ x w, Assigning usage x w ↔ (f.cflowGraph.vertexLabel w).isSome ∧ Writes (accessesAt f.cflowGraph w) x
  frontiers : ∃ g0 order fuel, OnlyLabels f.cflowGraph g0 ∧
    (Panopticon.Dominator.dominanceFrontiers g0 order fuel idom : Outcome Failure _) = .returns df
  dominators : ∃ fuel, (Panopticon.Dominator.immediateDominator f.cflowGraph fuel f.entryPoint : Outcome Failure _) = .returns idom

private theorem ssaConvertion_converted {orders : SsaOrders} {fuel : Nat} {f f' : Function} {filled : List Nat} (plain : Plain f)
    (unreserved : Unreserved f) (converted : ssaConvertion orders fuel f = .returns (f', filled)) :
    f' = { f with cflowGraph := f'.cflowGraph } ∧ ∃ g lens names usage idom df phis lin,
      Converted f g f'.cflowGraph filled lens names usage idom df phis lin := by
  simp only [ssaConvertion, Outcome.bind_eq_returns] at converted
  obtain ⟨middle, first, second⟩ := converted
  obtain ⟨same, lens, globals, usage, idom, df, phis, g0, names, only, dominators, size, frontiers, inserted⟩ :=
    phiFunctions_inserted first
  have entryPoint : middle.entryPoint = f.entryPoint := by rw [same]
  have prepared := inserted.prepared plain.valid plain.noPhi unreserved
  have labelled : (f.cflowGraph.vertexLabel f.entryPoint).isSome := by
    obtain ⟨bb, found⟩ := inserted.entry
    simp [found]
  obtain ⟨same', idom', lin, dominators', renamed⟩ := renameVariables_renamed (entryPoint ▸ prepared)
    (entryPoint ▸ (inserted.only.vertices _).mpr labelled) second
  rw [entryPoint] at dominators' renamed
  have table : idom' = idom := by
    rw [inserted.only.immediateDominator] at dominators'
    rw [only.immediateDominator, dominators'] at dominators
    simpa using dominators
  subst idom'
  obtain ⟨order, collected, exposed, used⟩ := globalNames_exact names
  have vertices : ∀ v, v ∈ order ↔ (f.cflowGraph.vertexLabel v).isSome := by
    intro v
    constructor
    · intro member
      exact Dominator.labelled_of_reachable plain.valid labelled
        (Dominator.reachable_of_postorder plain.valid collected member)
    · intro present
      rw [only.immediateDominator] at dominators
      obtain ⟨order', collected', covered, -, -⟩ := Dominator.immediateDominator_fixpoint (fun _ => True) trivial
        (fun _ _ _ _ _ _ _ _ _ _ => trivial) dominators
      have order_eq : order' = order := by
        rw [Function.postorder, collected'] at collected
        simpa using collected
      subst order'
      rcases covered.keys v ((renamed.tree.keys v).mpr ((inserted.only.vertices v).mpr present)) with rfl | member
      · exact Dominator.start_mem_postorder plain.valid collected
      · exact member
  refine ⟨by rw [same', same], middle.cflowGraph, lens, _, usage, idom, df, phis, lin, plain, inserted, prepared, renamed,
    ?_, ?_, ⟨g0, orders.vertices, fuel, only, frontiers⟩, ⟨fuel, by rw [← only.immediateDominator]; exact dominators⟩⟩
  · intro x
    rw [Enumeration.mem_list, Std.ExtTreeSet.mem_toList, exposed]
    simp only [vertices]
  · intro x w
    rw [← vertices]
    exact used x w

/-- The block at `d` assigns version `i` of `x`. -/
def Defines (g : ControlFlowGraph) (d : Nat) (x : String) (i : Nat) : Prop :=
  ∃ stmt ∈ statementsAt g d, ∃ size, stmt.assignee = .var x (some i) size

private theorem defines_iff {g : ControlFlowGraph} {d : Nat} {x : String} {i : Nat} : Defines g d x i ↔ i ∈ definedAt g d x :=
  mem_assigned.symm

theorem mem_of_head {g : ControlFlowGraph} {line : List Nat} {x : String} {i : Nat}
    (head : (scopeOf g line x).head? = some i) : ∃ d ∈ line, Defines g d x i := by
  obtain ⟨d, member, inside⟩ := List.mem_flatMap.mp (List.mem_of_head? head)
  exact ⟨d, member, defines_iff.mpr inside⟩

private theorem map_eq_append_cons {α β : Type} {f : α → β} {items : List α} {pre post : List β} {b : β}
    (split : items.map f = pre ++ b :: post) :
    ∃ front a back, items = front ++ a :: back ∧ front.map f = pre ∧ f a = b ∧ back.map f = post := by
  obtain ⟨front, rest, rfl, same, others⟩ := List.map_eq_append_iff.mp split
  obtain ⟨a, back, rfl, first, last⟩ := List.map_eq_cons_iff.mp others
  exact ⟨front, a, back, rfl, same, first, last⟩

section
variable {f : Function} {g g' : ControlFlowGraph} {filled : List Nat} {lens : Lengths} {names : List String}
  {usage : Usage} {idom : DominatorTable} {df : Panopticon.Dominator.Frontiers} {phis : List (String × Nat)}
  {lin : Nat → List Nat} (conv : Converted f g g' filled lens names usage idom df phis lin)
include conv

namespace Converted

theorem labelled (v : Nat) : (g.vertexLabel v).isSome ↔ (f.cflowGraph.vertexLabel v).isSome := conv.inserted.only.vertices v

theorem dominates {u d : Nat} (present : (f.cflowGraph.vertexLabel u).isSome) (member : d ∈ lin u) :
    Dominates f.cflowGraph.Adjacent f.entryPoint d u := by
  rw [← conv.inserted.only.adjacent]
  exact conv.renamed.tree.dominates (conv.renamed.lines u ((conv.labelled u).mpr present)) member

private theorem lin_cons {v : Nat} (present : (f.cflowGraph.vertexLabel v).isSome) : lin v = v :: (lin v).tail ∧ v ∉ (lin v).tail := by
  have lineage := conv.renamed.lines v ((conv.labelled v).mpr present)
  have nodup := lineage.nodup
  have whole : lin v = v :: (lin v).tail := by
    generalize lin v = line at lineage ⊢
    cases lineage <;> rfl
  refine ⟨whole, ?_⟩
  rw [whole] at nodup
  exact (List.nodup_cons.mp nodup).1

private theorem strictlyDominates {u d : Nat} (present : (f.cflowGraph.vertexLabel u).isSome) (member : d ∈ (lin u).tail) :
    StrictlyDominates f.cflowGraph.Adjacent f.entryPoint d u := by
  refine ⟨conv.dominates present (List.mem_of_mem_tail member), ?_⟩
  intro same
  exact (conv.lin_cons present).2 (same ▸ member)

private theorem global_inside {v : Nat} {x : String} (present : (f.cflowGraph.vertexLabel v).isSome) (global : x ∈ names) :
    ∃ i, (scopeOf g' (lin v) x).head? = some i := by
  obtain ⟨trail, versions, walk, -, members⟩ := conv.renamed.walk
  exact walk.inside_scope ((members v).mpr ((conv.labelled v).mpr present)) (conv.inserted.mem_start global) rfl

theorem defined {v size : Nat} {x : String} {stmt : Statement} (member : stmt ∈ statementsAt g v)
    (target : stmt.assignee = .var x none size) : definedAt g' v x ≠ [] := by
  obtain ⟨trail, versions, walk, -, members⟩ := conv.renamed.walk
  have present : (g.vertexLabel v).isSome := by
    obtain ⟨bb, found⟩ := statementsAt_block member
    simp [found]
  exact walk.defined ((members v).mpr present) member target

theorem relabelled : Relabelled g g' := by
  obtain ⟨trail, versions, walk, -, -⟩ := conv.renamed.walk
  exact walk.graph

theorem numbered {v : Nat} : Numbered (statementsAt g' v) := by
  obtain ⟨trail, versions, walk, -, members⟩ := conv.renamed.walk
  intro stmt member
  obtain ⟨bb, found⟩ := statementsAt_block member
  have present : v ∈ trail := (members v).mpr ((walk.graph.isSome v).mp (by simp [found]))
  exact walk.numbered v present stmt member

private theorem unsubscripted {v : Nat} {stmt : Statement} (member : stmt ∈ statementsAt f.cflowGraph v) : stmt.strip = stmt := by
  obtain ⟨bb, found⟩ := statementsAt_block member
  have same := conv.plain.labels v _ found
  have statements := congrArg ControlFlowTarget.statements same
  rw [ControlFlowTarget.statements_strip] at statements
  simp only [statementsAt, found, Option.map_some, Option.getD_some] at member
  obtain ⟨i, inside, rfl⟩ := List.getElem_of_mem member
  have here := congrArg (·[i]?) statements
  simpa [List.getElem?_map, List.getElem?_eq_getElem inside] using here

private theorem original {v : Nat} {pre post : List Statement} {stmt : Statement}
    (split : statementsAt g' v = pre ++ stmt :: post) (plain : stmt.op.isPhi = false)
    {x : String} {subscript : Option Nat} {offset size : Nat} (read : .var x subscript offset size ∈ stmt.op.operands) :
    ∃ above below old, statementsAt f.cflowGraph v = above ++ old :: below ∧ stmt.strip = old ∧
      pre.map Statement.strip = (phiPart f.cflowGraph lens phis v ++ initPart lens names f.entryPoint v ++ above).map
        Statement.strip := by
  have lists := conv.relabelled.statements v
  rw [split, List.map_append, List.map_cons] at lists
  obtain ⟨front, old, back, whole, before, same, -⟩ := map_eq_append_cons lists.symm
  have block : Block f.cflowGraph v := by
    by_contra other
    rw [conv.inserted.statements_other other] at whole
    simp at whole
  rw [conv.inserted.statements block] at whole
  have kind : old.op.isPhi = false := by
    rw [← Statement.strip_isPhi, same, Statement.strip_isPhi]
    exact plain
  have listed : Rvalue.strip (.var x subscript offset size) ∈ old.strip.op.operands := by
    rw [same, Statement.strip, Operation.operands_lift]
    exact List.mem_map_of_mem read
  have body : old ∉ phiPart f.cflowGraph lens phis v ++ initPart lens names f.entryPoint v := by
    intro member
    rcases List.mem_append.mp member with phi | init
    · obtain ⟨y, -, rfl⟩ := List.mem_map.mp phi
      simp [phiStatement, Operation.isPhi] at kind
    · simp [Statement.strip, initPart_plain init, Operation.lift, Operation.operands, Rvalue.strip] at listed
  rcases List.append_eq_append_iff.mp whole with ⟨above, rfl, rest⟩ | ⟨rest, here, tail⟩
  · refine ⟨above, back, old, rest, ?_, before.symm⟩
    rw [← same]
    exact conv.unsubscripted (v := v) (by rw [rest]; simp)
  · cases rest with
    | nil =>
      simp only [List.append_nil] at here
      refine ⟨[], back, old, by simpa using tail.symm, ?_, by rw [← before, here, List.append_nil]⟩
      rw [← same]
      exact conv.unsubscripted (v := v) (by rw [← List.nil_append (statementsAt f.cflowGraph v), ← tail]; simp)
    | cons first rest =>
      cases tail
      exact absurd (by rw [here]; simp) body

theorem operand {v : Nat} {pre post : List Statement} {stmt : Statement} (split : statementsAt g' v = pre ++ stmt :: post)
    (plain : stmt.op.isPhi = false) {x : String} {subscript : Option Nat} {offset size : Nat}
    (read : .var x subscript offset size ∈ stmt.op.operands) :
    ∃ i, subscript = some i ∧ (i ∈ assigned pre x ∨ (assigned pre x = [] ∧ ∃ d ∈ (lin v).tail, Defines g' d x i)) := by
  obtain ⟨trail, versions, walk, -, members⟩ := conv.renamed.walk
  have present : (f.cflowGraph.vertexLabel v).isSome := by
    have member : stmt ∈ statementsAt g' v := by simp [split]
    obtain ⟨bb, found⟩ := statementsAt_block member
    exact (conv.labelled v).mp ((walk.graph.isSome v).mp (by simp [found]))
  have reads := walk.reads v ((members v).mpr ((conv.labelled v).mpr present))
  simp only [split] at reads
  have here : subscript = (assigned pre x ++ scopeOf g' (lin v).tail x).head? := reads.at plain read
  obtain ⟨above, below, old, whole, same, before⟩ := conv.original split plain read
  have numbered : Numbered pre := fun other member => conv.numbered (v := v) other (by simp [split, member])
  by_cases written : assigned pre x = []
  · -- nothing above assigns the name, so it is global
    have unwritten : ∀ other ∈ above, ∀ s w, other.assignee ≠ .var x s w := by
      intro other member s w target
      exact assigned_of_strip numbered before (List.mem_append_right _ member) target written
    obtain ⟨lb, label⟩ := Option.isSome_iff_exists.mp present
    have global : x ∈ names := by
      refine (conv.globals x).mpr ⟨v, present, ?_⟩
      have statements : lb.statements = above ++ old :: below := by
        simpa [statementsAt, label] using whole
      have kind : old.op.isPhi = false := by rw [← same, Statement.strip_isPhi, plain]
      have operand : .var x none offset size ∈ old.op.operands := by
        rw [← same, Statement.strip, Operation.operands_lift]
        exact List.mem_map.mpr ⟨_, read, rfl⟩
      have exposes := exposes_statement statements kind operand unwritten
      rw [accessesAt, label]
      exact exposes.append _
    have inner : v ≠ f.entryPoint := by
      intro entry
      subst entry
      refine assigned_of_strip numbered before (List.mem_append_left _ (List.mem_append_right _
        (mem_initPart_start global))) rfl written
    rw [written, List.nil_append] at here
    obtain ⟨whole', -⟩ := conv.lin_cons present
    have rooted : f.entryPoint ∈ (lin v).tail := by
      have member := (walk.upward v ((members v).mpr ((conv.labelled v).mpr present))).1
      rw [whole'] at member
      exact (List.mem_cons.mp member).resolve_left (Ne.symm inner)
    obtain ⟨j, first⟩ := List.exists_mem_of_ne_nil _ (conv.defined (conv.inserted.mem_start global) rfl)
    have nonempty : scopeOf g' (lin v).tail x ≠ [] :=
      List.ne_nil_of_mem (List.mem_flatMap.mpr ⟨_, rooted, first⟩)
    rw [List.head?_eq_some_head nonempty] at here
    exact ⟨_, here, .inr ⟨written, mem_of_head (List.head?_eq_some_head nonempty)⟩⟩
  · rw [List.head?_append_of_ne_nil _ written, List.head?_eq_some_head written] at here
    exact ⟨_, here, .inl (List.head_mem written)⟩

theorem guard {e u v : Nat} {x : String} {subscript : Option Nat} {offset size : Nat} {expected : Bool}
    (stored : f.cflowGraph.edges[e]? = some (u, v))
    (label : g'.edgeLabel e = some (.predicate (.var x subscript offset size) expected)) :
    subscript = (scopeOf g' (lin u) x).head? ∧ ∃ i, subscript = some i ∧ ∃ d ∈ lin u, Defines g' d x i := by
  obtain ⟨trail, versions, walk, complete, members⟩ := conv.renamed.walk
  have edges : g.edges = f.cflowGraph.edges := conv.inserted.only.edges
  have stored' : g.edges[e]? = some (u, v) := by rw [edges]; exact stored
  have present := (conv.plain.valid.ends e u v stored).1
  have entered : u ∈ trail := (members u).mpr ((conv.labelled u).mpr present)
  have here : subscript = (scopeOf g' (lin u) x).head? :=
    walk.guards e (complete e u v stored' entered) u v stored' _ _ label
  have some_version : ∃ i, (scopeOf g' (lin u) x).head? = some i := by
    by_cases writes : Writes (accessesAt f.cflowGraph u) x
    · obtain ⟨lb, found, writes⟩ := writesAt_iff.mp writes
      obtain ⟨stmt, member, -, s, w, target⟩ := writes_iff.mp writes
      have inside : stmt ∈ statementsAt f.cflowGraph u := by simpa [statementsAt, found] using member
      have kept : stmt ∈ statementsAt g u := by
        rw [conv.inserted.statements (statementsAt_block inside)]
        exact List.mem_append_right _ inside
      have defined : definedAt g' u x ≠ [] :=
        assigned_of_strip conv.numbered (conv.relabelled.statements u) kept target
      obtain ⟨j, first⟩ := List.exists_mem_of_ne_nil _ defined
      have nonempty : scopeOf g' (lin u) x ≠ [] :=
        List.ne_nil_of_mem (List.mem_flatMap.mpr ⟨u, (conv.renamed.lines u ((conv.labelled u).mpr present)).mem, first⟩)
      exact ⟨_, List.head?_eq_some_head nonempty⟩
    · refine conv.global_inside present ((conv.globals x).mpr ⟨u, present, ?_⟩)
      obtain ⟨out, list⟩ := Option.isSome_iff_exists.mp ((conv.plain.valid.outKeys u).mpr present)
      have guards := conv.relabelled.guards e
      rw [label, conv.inserted.only.edgeLabel] at guards
      cases old : f.cflowGraph.edgeLabel e with
      | none => simp [old] at guards
      | some gu =>
        have strip := conv.plain.guards e gu old
        rw [old, Option.map_some, Option.map_some, strip] at guards
        cases guards
        exact exposes_guard list (((conv.plain.valid.outList u out list).2 e).mpr ⟨v, stored⟩) old writes
  obtain ⟨i, top⟩ := some_version
  exact ⟨here, i, here.trans top, mem_of_head top⟩

private theorem entering_perm {v : Nat} {into : List Nat} (list : f.cflowGraph.inEdges[v]? = some into) :
    (entering g filled v).Perm into := by
  obtain ⟨trail, versions, walk, complete, members⟩ := conv.renamed.walk
  obtain ⟨nodup, listed⟩ := conv.plain.valid.inList v into list
  have unique : (entering g filled v).Nodup := walk.nodup.filter _
  rw [List.perm_ext_iff_of_nodup unique nodup]
  intro e
  rw [mem_entering, listed, conv.inserted.only.edges]
  constructor
  · exact fun member => member.2
  · intro holds
    obtain ⟨u, stored⟩ := holds
    refine ⟨complete e u v (by rw [conv.inserted.only.edges]; exact stored) ?_, u, stored⟩
    exact (members u).mpr ((conv.labelled u).mpr (conv.plain.valid.ends e u v stored).1)

theorem phi {v : Nat} {into : List Nat} {stmt : Statement} {ops : List Rvalue} (member : stmt ∈ statementsAt g' v)
    (isPhi : stmt.op = .phi ops) (list : f.cflowGraph.inEdges[v]? = some into) :
    ∃ x len, x ∈ namesAt phis v ∧ stmt.strip = phiStatement x len into.length ∧
      ops = (entering g filled v).map fun e => .var x (exitVersion g' lin x e) 0 len := by
  obtain ⟨trail, versions, walk, complete, members⟩ := conv.renamed.walk
  have listed : stmt.strip ∈ (statementsAt g v).map Statement.strip :=
    walk.graph.statements v ▸ List.mem_map_of_mem member
  obtain ⟨old, inside, same⟩ := List.mem_map.mp listed
  have kind : old.op.isPhi = true := by
    rw [← Statement.strip_isPhi, same, Statement.strip_isPhi, isPhi]
    rfl
  have block : Block f.cflowGraph v := by
    by_contra other
    rw [conv.inserted.statements_other other] at inside
    cases inside
  rw [conv.inserted.statements block] at inside
  rcases List.mem_append.mp inside with front | body
  · rcases List.mem_append.mp front with phi | init
    · obtain ⟨x, name, rfl⟩ := List.mem_map.mp phi
      have arity : arityAt f.cflowGraph v = into.length := by rw [arityAt, list, Option.getD_some]
      have strip : stmt.strip = phiStatement x (lengthIn lens x) into.length := by
        rw [← same, arity]
        simp [Statement.strip, phiStatement, Lvalue.strip, Operation.lift, Rvalue.strip]
      have operands := walk.phis v stmt x (lengthIn lens x) into member strip
        (by rw [conv.inserted.only.inEdges]; exact list)
      rw [isPhi] at operands
      cases operands
      refine ⟨x, lengthIn lens x, name, strip, ?_⟩
      simp [operandsFor, (conv.entering_perm list).length_eq]
    · rw [initPart_plain init] at kind
      cases kind
  · rw [conv.plain.noPhi v old body] at kind
    cases kind

theorem single {v w j k : Nat} {s t : Statement} {x : String} {subscript : Option Nat} {size size' : Nat}
    (first : (statementsAt g' v)[j]? = some s) (second : (statementsAt g' w)[k]? = some t)
    (target : s.assignee = .var x subscript size) (target' : t.assignee = .var x subscript size') : v = w ∧ j = k := by
  obtain ⟨trail, versions, walk, -, members⟩ := conv.renamed.walk
  have inside : ∀ {v : Nat} {s : Statement}, s ∈ statementsAt g' v → v ∈ trail := by
    intro v s member
    obtain ⟨bb, found⟩ := statementsAt_block member
    exact (members v).mpr ((walk.graph.isSome v).mp (by simp [found]))
  have member := List.mem_of_getElem? first
  have member' := List.mem_of_getElem? second
  obtain ⟨i, rfl⟩ := Option.isSome_iff_exists.mp (conv.numbered s member _ _ _ target)
  have here : i ∈ definedAt g' v x := mem_assigned.mpr ⟨s, member, _, target⟩
  have there : i ∈ definedAt g' w x := mem_assigned.mpr ⟨t, member', _, target'⟩
  obtain ⟨within, between⟩ := List.nodup_flatMap.mp (walk.unique x)
  have same : v = w := by
    by_contra other
    have symmetric : Std.Symm (Function.onFun List.Disjoint (definedAt g' · x)) :=
      ⟨fun _ _ apart => List.Disjoint.symm apart⟩
    exact between.forall (inside member) (inside member') other here there
  subst w
  refine ⟨rfl, ?_⟩
  have distinct := within v (inside member)
  rw [definedAt, assigned, List.nodup_reverse, List.Nodup, List.pairwise_filterMap, List.pairwise_iff_getElem] at distinct
  obtain ⟨small, rfl⟩ := List.getElem?_eq_some_iff.mp first
  obtain ⟨small', rfl⟩ := List.getElem?_eq_some_iff.mp second
  have version : versionOf x ((statementsAt g' v)[j]).assignee = some i := by simp [target, versionOf]
  have version' : versionOf x ((statementsAt g' v)[k]).assignee = some i := by simp [target', versionOf]
  rcases Nat.lt_trichotomy j k with less | equal | greater
  · exact absurd rfl (distinct j k small small' less i version i version')
  · exact equal
  · exact absurd rfl (distinct k j small' small greater i version' i version)

end Converted
end

/-- `f'` is `f` in SSA form. -/
structure InSsaForm (f f' : Function) : Prop where
  single : ∀ (v w j k : Nat) (s t : Statement) x subscript size size', (statementsAt f'.cflowGraph v)[j]? = some s →
    (statementsAt f'.cflowGraph w)[k]? = some t → s.assignee = .var x subscript size →
    t.assignee = .var x subscript size' → v = w ∧ j = k
  operands : ∀ v pre stmt post, statementsAt f'.cflowGraph v = pre ++ stmt :: post → stmt.op.isPhi = false →
    ∀ x subscript offset size, .var x subscript offset size ∈ stmt.op.operands → ∃ i, subscript = some i ∧
      ((∃ other ∈ pre, ∃ size, other.assignee = .var x (some i) size) ∨
        ∃ d, StrictlyDominates f.cflowGraph.Adjacent f.entryPoint d v ∧ Defines f'.cflowGraph d x i)
  guards : ∀ e u v x subscript offset size expected, f.cflowGraph.edges[e]? = some (u, v) →
    f'.cflowGraph.edgeLabel e = some (.predicate (.var x subscript offset size) expected) → ∃ i, subscript = some i ∧
      ∃ d, Dominates f.cflowGraph.Adjacent f.entryPoint d u ∧ Defines f'.cflowGraph d x i
  phis : ∀ v stmt ops, stmt ∈ statementsAt f'.cflowGraph v → stmt.op = .phi ops →
    ∃ into edges, f.cflowGraph.inEdges[v]? = some into ∧ edges.Perm into ∧
      List.Forall₂ (fun op e => ∃ x i offset size u d, op = .var x (some i) offset size ∧
        f.cflowGraph.source e = some u ∧ Dominates f.cflowGraph.Adjacent f.entryPoint d u ∧
        Defines f'.cflowGraph d x i) ops edges
  blocks : ∀ v bb, f.cflowGraph.vertexLabel v = some (.resolved bb) →
    ∃ bb' phis init, f'.cflowGraph.vertexLabel v = some (.resolved bb') ∧ bb'.area = bb.area ∧
      bb'.mnemonics.map Mnemonic.strip = phis ++ init ++ bb.mnemonics ∧ (∀ mne ∈ phis, mne.opcode = "__phi") ∧
      (∀ mne ∈ init, mne.opcode = "__init") ∧ init.length = if v = f.entryPoint then 1 else 0
  others : ∀ v, ¬ Block f.cflowGraph v →
    (f'.cflowGraph.vertexLabel v).map ControlFlowTarget.strip = f.cflowGraph.vertexLabel v
  edges : f'.cflowGraph.edges = f.cflowGraph.edges ∧ f'.cflowGraph.outEdges = f.cflowGraph.outEdges ∧
    f'.cflowGraph.inEdges = f.cflowGraph.inEdges ∧
    ∀ e, (f'.cflowGraph.edgeLabel e).map Guard.strip = f.cflowGraph.edgeLabel e
  rest : f' = { f with cflowGraph := f'.cflowGraph }

theorem ssaConvertion_inSsaForm {orders : SsaOrders} {fuel : Nat} {f f' : Function} {filled : List Nat} (plain : Plain f)
    (unreserved : Unreserved f) (converted : ssaConvertion orders fuel f = .returns (f', filled)) : InSsaForm f f' := by
  obtain ⟨rest, g, lens, names, usage, idom, df, phis, lin, conv⟩ := ssaConvertion_converted plain unreserved converted
  have vertex : ∀ {v : Nat} {stmt : Statement}, stmt ∈ statementsAt f'.cflowGraph v → (f.cflowGraph.vertexLabel v).isSome := by
    intro v stmt member
    obtain ⟨bb, found⟩ := statementsAt_block member
    exact (conv.labelled v).mp ((conv.relabelled.isSome v).mp (by simp [found]))
  constructor
  · intro v w j k s t x subscript size size' first second target target'
    exact conv.single first second target target'
  · intro v pre stmt post split kind x subscript offset size read
    obtain ⟨i, version, above | ⟨-, d, member, defines⟩⟩ := conv.operand split kind read
    · exact ⟨i, version, .inl (mem_assigned.mp above)⟩
    · have listed : stmt ∈ statementsAt f'.cflowGraph v := by simp [split]
      exact ⟨i, version, .inr ⟨d, conv.strictlyDominates (vertex listed) member, defines⟩⟩
  · intro e u v x subscript offset size expected stored label
    obtain ⟨-, i, version, d, member, defines⟩ := conv.guard stored label
    exact ⟨i, version, d, conv.dominates (plain.valid.ends e u v stored).1 member, defines⟩
  · intro v stmt ops member isPhi
    obtain ⟨into, list⟩ := Option.isSome_iff_exists.mp ((plain.valid.inKeys v).mpr (vertex member))
    obtain ⟨x, len, name, -, rfl⟩ := conv.phi member isPhi list
    refine ⟨into, entering g filled v, list, conv.entering_perm list, ?_⟩
    rw [List.forall₂_map_left_iff, List.forall₂_same]
    intro e entered
    obtain ⟨-, u, stored⟩ := mem_entering.mp entered
    rw [conv.inserted.only.edges] at stored
    have present := (plain.valid.ends e u v stored).1
    obtain ⟨i, top⟩ := conv.global_inside present (conv.inserted.named x v (mem_namesAt.mp name))
    obtain ⟨d, above, defines⟩ := mem_of_head top
    refine ⟨x, i, 0, len, u, d, ?_, by simp [AdjacencyList.source, stored], conv.dominates present above, defines⟩
    simp [exitVersion, AdjacencyList.source, conv.relabelled.edges, conv.inserted.only.edges, stored, top]
  · intro v bb found
    have labels := conv.relabelled.labels v
    rw [conv.inserted.labels, found, Option.map_some, Option.map_some, decorate] at labels
    obtain ⟨lb, label, strip⟩ := Option.map_eq_some_iff.mp labels
    cases lb with
    | unresolved => simp [ControlFlowTarget.strip] at strip
    | failed => simp [ControlFlowTarget.strip] at strip
    | resolved bb' =>
      simp only [ControlFlowTarget.strip, BasicBlock.strip, ControlFlowTarget.resolved.injEq, BasicBlock.mk.injEq,
        List.map_append] at strip
      have body : bb.mnemonics.map Mnemonic.strip = bb.mnemonics := by
        have same := plain.labels v _ found
        simpa [ControlFlowTarget.strip, BasicBlock.strip] using congrArg (fun lb => match lb with
          | .resolved bb => bb.mnemonics
          | _ => []) same
      refine ⟨bb', _, _, label, strip.1, by rw [strip.2, pseudo, List.map_append, body], ?_, ?_, ?_⟩
      · intro mne member
        obtain ⟨old, inside, rfl⟩ := List.mem_map.mp member
        obtain ⟨x, -, rfl⟩ := List.mem_map.mp inside
        rfl
      · intro mne member
        obtain ⟨old, inside, rfl⟩ := List.mem_map.mp member
        simp only [Option.mem_toList, Option.map_eq_some_iff] at inside
        obtain ⟨list, -, rfl⟩ := inside
        rfl
      · by_cases here : v = f.entryPoint <;> simp [here]
  · intro v other
    have labels := conv.relabelled.labels v
    rw [conv.inserted.labels] at labels
    rw [labels]
    cases found : f.cflowGraph.vertexLabel v with
    | none => rfl
    | some lb =>
      have same := plain.labels v lb found
      cases lb with
      | resolved bb => exact absurd ⟨bb, found⟩ other
      | unresolved => simpa [decorate] using same
      | failed => rfl
  · refine ⟨conv.relabelled.edges.trans conv.inserted.only.edges, conv.relabelled.outEdges.trans conv.inserted.only.outEdges,
      conv.relabelled.inEdges.trans conv.inserted.only.inEdges, fun e => ?_⟩
    rw [conv.relabelled.guards, conv.inserted.only.edgeLabel]
    cases found : f.cflowGraph.edgeLabel e with
    | none => rfl
    | some gu => simp [plain.guards e gu found]
  · exact rest

private def assign (name : String) (value : Rvalue) : Statement := ⟨.var name none 8, .move value⟩

private def code (start : UInt64) (opcode : String) (stmts : List Statement) : ControlFlowTarget :=
  .resolved (.fromVec [⟨⟨start, start + 1⟩, opcode, [], stmts, []⟩])

private def function (labels : List ControlFlowTarget) (arcs : List (Guard × Nat × Nat)) : Function where
  name := "f"
  aliases := []
  uuid := 0
  cflowGraph := .ofLists labels arcs
  entryPoint := 0
  region := "ram"
  size := 0
  kind := .regular

/-- A loop whose body reads and changes a variable. -/
def counting : Function := function
  [code 0 "mov" [assign "x" (.constant 0 8)], code 1 "inc" [assign "x" (.var "x" none 0 8)], code 2 "mov" [assign "y" (.var "x" none 0 8)]]
  [(.always, 0, 1), (.predicate (.var "x" none 0 8) true, 1, 2), (.always, 2, 1)]

theorem counting_inSsaForm : ∃ f' filled, ssaConvertion .canonical 20 counting = .returns (f', filled) ∧
    InSsaForm counting f' := by
  obtain ⟨⟨f', filled⟩, converted, -⟩ := Outcome.exists_of_value?
    (show (ssaConvertion .canonical 20 counting).value?.any (fun _ => true) = true by decide)
  exact ⟨f', filled, converted, ssaConvertion_inSsaForm
    (plain_of_check (.ofLists _ _) (by decide) (by decide)) (unreserved_of_check (by decide)) converted⟩

/-- A block whose mnemonic has the opcode of phi functions without being one. -/
def reservedOpcode : Function := function [code 0 "__phi" [assign "x" (.var "y" none 0 8)]] []

theorem reservedOpcode_not_inSsaForm : Plain reservedOpcode ∧ ∃ f' filled,
    ssaConvertion .canonical 20 reservedOpcode = .returns (f', filled) ∧ ¬ InSsaForm reservedOpcode f' := by
  refine ⟨plain_of_check (.ofLists _ _) (by decide) (by decide), ?_⟩
  obtain ⟨⟨f', filled⟩, converted, statements⟩ := Outcome.exists_of_value?
    (show (ssaConvertion .canonical 20 reservedOpcode).value?.any (fun result =>
      statementsAt result.1.cflowGraph 0 == [⟨.var "y" (some 0) 8, .move .undefined⟩, assign "x" (.var "y" none 0 8)]) = true by
      decide)
  refine ⟨f', filled, converted, fun form => ?_⟩
  have list := beq_iff_eq.mp statements
  obtain ⟨i, version, -⟩ := form.operands 0 [⟨.var "y" (some 0) 8, .move .undefined⟩] _ [] list rfl "y" none 0 8
    (by simp [assign, Operation.operands])
  cases version

end Panopticon.Proofs.SsaForm
