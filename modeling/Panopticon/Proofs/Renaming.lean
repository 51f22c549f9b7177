import Panopticon.Proofs.Dominator
import Panopticon.Proofs.Versions

/-! The walk over the dominator tree. At every moment the versions in scope are those
assigned by the blocks that have been entered and not left, so a block reads what
its dominators assign. -/

namespace Panopticon.Proofs.Renaming
open Library Ssa Proofs.Versions AdjacencyList

def statementsAt (g : ControlFlowGraph) (v : Nat) : List Statement :=
  ((g.vertexLabel v).map ControlFlowTarget.statements).getD []

/-- The versions of `x` that the block at `v` assigns, the last one first. -/
def definedAt (g : ControlFlowGraph) (v : Nat) (x : String) : List Nat := assigned (statementsAt g v) x

/-- The versions of `x` in scope at the end of the first of some nested blocks, innermost first. -/
def scopeOf (g : ControlFlowGraph) (line : List Nat) (x : String) : List Nat := line.flatMap (definedAt g · x)

theorem scopeOf_congr {g g' : ControlFlowGraph} {line : List Nat}
    (same : ∀ v ∈ line, ∀ x, definedAt g' v x = definedAt g v x) (x : String) : scopeOf g' line x = scopeOf g line x :=
  List.flatMap_congr fun v member => same v member x

@[simp] theorem vertexLabel_setVertexLabel (g : AdjacencyList N E) (v w : Nat) (lb : N) :
    (g.setVertexLabel v lb).vertexLabel w = if v = w then some lb else g.vertexLabel w := by
  simp [setVertexLabel, vertexLabel, Std.ExtTreeMap.getElem?_insert]

@[simp] theorem edgeLabel_setEdgeLabel (g : AdjacencyList N E) (e d : Nat) (lb : E) :
    (g.setEdgeLabel e lb).edgeLabel d = if e = d then some lb else g.edgeLabel d := by
  simp [setEdgeLabel, edgeLabel, Std.ExtTreeMap.getElem?_insert]

/-- The same graph with the same labels up to subscripts. -/
structure Relabelled (g g' : ControlFlowGraph) : Prop where
  edges : g'.edges = g.edges
  outEdges : g'.outEdges = g.outEdges
  inEdges : g'.inEdges = g.inEdges
  labels : ∀ v, (g'.vertexLabel v).map ControlFlowTarget.strip = (g.vertexLabel v).map ControlFlowTarget.strip
  guards : ∀ e, (g'.edgeLabel e).map Guard.strip = (g.edgeLabel e).map Guard.strip

namespace Relabelled
variable {g g' g'' : ControlFlowGraph}

theorem refl (g : ControlFlowGraph) : Relabelled g g := ⟨rfl, rfl, rfl, fun _ => rfl, fun _ => rfl⟩

theorem trans (first : Relabelled g g') (second : Relabelled g' g'') : Relabelled g g'' where
  edges := second.edges.trans first.edges
  outEdges := second.outEdges.trans first.outEdges
  inEdges := second.inEdges.trans first.inEdges
  labels := fun v => (second.labels v).trans (first.labels v)
  guards := fun e => (second.guards e).trans (first.guards e)

theorem setVertexLabel {v : Nat} {lb lb' : ControlFlowTarget} (found : g.vertexLabel v = some lb)
    (same : lb'.strip = lb.strip) : Relabelled g (g.setVertexLabel v lb') where
  edges := rfl
  outEdges := rfl
  inEdges := rfl
  labels := by
    intro w
    rw [vertexLabel_setVertexLabel]
    split
    · next here =>
      subst w
      simp [found, same]
    · rfl
  guards := fun _ => rfl

theorem setEdgeLabel {e : Nat} {gu gu' : Guard} (found : g.edgeLabel e = some gu) (same : gu'.strip = gu.strip) :
    Relabelled g (g.setEdgeLabel e gu') where
  edges := rfl
  outEdges := rfl
  inEdges := rfl
  labels := fun _ => rfl
  guards := by
    intro d
    rw [edgeLabel_setEdgeLabel]
    split
    · next here =>
      subst d
      simp [found, same]
    · rfl

theorem isSome (same : Relabelled g g') (v : Nat) : (g'.vertexLabel v).isSome ↔ (g.vertexLabel v).isSome := by
  have labels := congrArg Option.isSome (same.labels v)
  rw [Option.isSome_map, Option.isSome_map] at labels
  rw [labels]

theorem block (same : Relabelled g g') {v : Nat} {bb' : BasicBlock} (found : g'.vertexLabel v = some (.resolved bb')) :
    ∃ bb, g.vertexLabel v = some (.resolved bb) ∧ bb'.strip = bb.strip := by
  have labels := same.labels v
  rw [found] at labels
  cases old : g.vertexLabel v with
  | none => simp [old] at labels
  | some lb =>
    rw [old] at labels
    cases lb with
    | resolved bb => exact ⟨bb, rfl, by simpa [ControlFlowTarget.strip] using labels⟩
    | unresolved => simp [ControlFlowTarget.strip] at labels
    | failed => simp [ControlFlowTarget.strip] at labels

theorem statements (same : Relabelled g g') (v : Nat) :
    (statementsAt g' v).map Statement.strip = (statementsAt g v).map Statement.strip := by
  have strip : ∀ g : ControlFlowGraph, (statementsAt g v).map Statement.strip =
      (((g.vertexLabel v).map ControlFlowTarget.strip).map ControlFlowTarget.statements).getD [] := by
    intro g
    cases found : g.vertexLabel v with
    | none => simp [statementsAt, found]
    | some lb => simp [statementsAt, found, ControlFlowTarget.statements_strip]
  rw [strip, strip, same.labels]

end Relabelled

theorem statementsAt_congr {g g' : ControlFlowGraph} {v : Nat} (same : g'.vertexLabel v = g.vertexLabel v) :
    statementsAt g' v = statementsAt g v := by
  simp [statementsAt, same]

theorem renameBlock_spec {b : Nat} {st st' : Renaming}
    (shape : ∀ bb, st.cfg.vertexLabel b = some (.resolved bb) → PhisFirst bb.mnemonics)
    (renamed : renameBlock b st = .returns st') :
    st'.filled = st.filled ∧ Relabelled st.cfg st'.cfg ∧ (∀ e, st'.cfg.edgeLabel e = st.cfg.edgeLabel e) ∧
      (∀ v, v ≠ b → st'.cfg.vertexLabel v = st.cfg.vertexLabel v) ∧
      Renames st.versions st'.versions (statementsAt st.cfg b) (statementsAt st'.cfg b) ∧
      phiHeads (statementsAt st'.cfg b) = phiHeads (statementsAt st.cfg b) := by
  unfold renameBlock at renamed
  split at renamed
  · next bb found =>
    cases numbered : accumulate numberMnemonic st.versions bb.mnemonics with
    | mk middle mnes =>
      simp only [numbered, Outcome.bind_eq_returns] at renamed
      obtain ⟨⟨last, mnes', stop⟩, walked, answer⟩ := renamed
      obtain ⟨rfl, renames, same, ops⟩ := block_spec (shape bb found) numbered walked
      simp only [Outcome.pure_eq, Outcome.returns.injEq] at answer
      subst st'
      have before : statementsAt st.cfg b = bb.statements := by simp [statementsAt, found, ControlFlowTarget.statements]
      have after : statementsAt (st.cfg.setVertexLabel b (.resolved { bb with mnemonics := mnes' })) b =
          mnes'.flatMap Mnemonic.instructions := by
        simp [statementsAt, ControlFlowTarget.statements, BasicBlock.statements]
      refine ⟨rfl, .setVertexLabel found ?_, fun _ => rfl, ?_, ?_, ?_⟩
      · simp [ControlFlowTarget.strip, BasicBlock.strip, same]
      · intro v other
        simp [Ne.symm other]
      · rw [before, after]
        exact renames
      · rw [before, after]
        exact ops
  · next other =>
    simp only [Outcome.pure_eq, Outcome.returns.injEq] at renamed
    subst st'
    have empty : statementsAt st.cfg b = [] := by
      cases found : st.cfg.vertexLabel b with
      | none => simp [statementsAt, found]
      | some lb =>
        cases lb with
        | resolved bb => exact absurd found (other bb)
        | unresolved => simp [statementsAt, found, ControlFlowTarget.statements]
        | failed => simp [statementsAt, found, ControlFlowTarget.statements]
    exact ⟨rfl, .refl _, fun _ => rfl, fun _ _ => rfl, by rw [empty]; exact .nil _, rfl⟩

variable {ε : Type}

private theorem renameGuard_spec {vs : Versions} {gu gu' : Guard} (renamed : (renameGuard vs gu : Outcome ε _) = .returns gu') :
    gu'.strip = gu.strip ∧ ∀ flag expected, gu' = .predicate flag expected → ReadsFrom (scope vs) flag := by
  cases gu with
  | always =>
    cases renamed
    exact ⟨rfl, fun _ _ same => by cases same⟩
  | never =>
    cases renamed
    exact ⟨rfl, fun _ _ same => by cases same⟩
  | predicate flag expected =>
    simp only [renameGuard, Outcome.bind_eq_returns, Outcome.pure_eq, Outcome.returns.injEq] at renamed
    obtain ⟨flag', read, rfl⟩ := renamed
    rw [renameRead_spec read]
    refine ⟨by simp [Guard.strip, inScope_strip], ?_⟩
    intro flag'' _ same
    cases same
    exact inScope_reads vs flag

private theorem fillTarget_spec {vs : Versions} {lb lb' : ControlFlowTarget}
    (filled : (fillTarget vs lb : Outcome ε _) = .returns lb') :
    lb'.strip = lb.strip ∧ Outcome.each (fillStatement vs) lb.statements = (.returns lb'.statements : Outcome ε _) := by
  cases lb with
  | resolved bb =>
    simp only [fillTarget, Outcome.bind_eq_returns, Outcome.pure_eq, Outcome.returns.injEq] at filled
    obtain ⟨mnes, walked, rfl⟩ := filled
    obtain ⟨stmts, same⟩ := each_fillMnemonic walked
    exact ⟨by simp [ControlFlowTarget.strip, BasicBlock.strip, same], stmts⟩
  | unresolved rv =>
    simp only [fillTarget, Outcome.bind_eq_returns, Outcome.pure_eq, Outcome.returns.injEq] at filled
    obtain ⟨rv', read, rfl⟩ := filled
    exact ⟨by simp [ControlFlowTarget.strip, renameRead_spec read, inScope_strip], rfl⟩
  | failed pos msg =>
    cases filled
    exact ⟨rfl, rfl⟩

theorem renameEdge_spec {st st' : Renaming} {e u v : Nat} (stored : st.cfg.edges[e]? = some (u, v))
    (renamed : renameEdge st e = .returns st') :
    st'.filled = st.filled ++ [e] ∧ st'.versions = st.versions ∧ Relabelled st.cfg st'.cfg ∧
      (∀ d, d ≠ e → st'.cfg.edgeLabel d = st.cfg.edgeLabel d) ∧
      (∀ flag expected, st'.cfg.edgeLabel e = some (.predicate flag expected) → ReadsFrom (scope st.versions) flag) ∧
      (∀ w, w ≠ v → st'.cfg.vertexLabel w = st.cfg.vertexLabel w) ∧
      Outcome.each (fillStatement st.versions) (statementsAt st.cfg v) =
        (.returns (statementsAt st'.cfg v) : Outcome Failure _) := by
  simp only [renameEdge, Outcome.bind_eq_returns, Outcome.unwrap_eq_returns, Outcome.pure_eq, Outcome.returns.injEq]
    at renamed
  obtain ⟨middle, guarded, w, target, cfg, entered, rfl⟩ := renamed
  have first : Relabelled st.cfg middle ∧ (∀ d, d ≠ e → middle.edgeLabel d = st.cfg.edgeLabel d) ∧
      (∀ flag expected, middle.edgeLabel e = some (.predicate flag expected) → ReadsFrom (scope st.versions) flag) ∧
      ∀ w, middle.vertexLabel w = st.cfg.vertexLabel w := by
    unfold relabelEdge at guarded
    split at guarded
    · next gu found =>
      simp only [Outcome.bind_eq_returns, Outcome.pure_eq, Outcome.returns.injEq] at guarded
      obtain ⟨gu', read, rfl⟩ := guarded
      obtain ⟨same, reads⟩ := renameGuard_spec read
      refine ⟨.setEdgeLabel found same, fun d other => by simp [Ne.symm other], ?_, fun _ => rfl⟩
      intro flag expected label
      exact reads flag expected (by simpa using label)
    · next missing =>
      simp only [Outcome.pure_eq, Outcome.returns.injEq] at guarded
      subst middle
      exact ⟨.refl _, fun _ _ => rfl, fun _ _ label => by simp [missing] at label, fun _ => rfl⟩
  obtain ⟨same, others, reads, labels⟩ := first
  have reached : w = v := by
    simp only [AdjacencyList.target, same.edges, stored, Option.map_some, Option.some.injEq] at target
    exact target.symm
  subst w
  have before : statementsAt middle v = statementsAt st.cfg v := statementsAt_congr (labels v)
  unfold relabelTarget at entered
  split at entered
  · next lb found =>
    simp only [Outcome.bind_eq_returns, Outcome.pure_eq, Outcome.returns.injEq] at entered
    obtain ⟨lb', filled, rfl⟩ := entered
    obtain ⟨strip, stmts⟩ := fillTarget_spec filled
    refine ⟨rfl, rfl, same.trans (.setVertexLabel found strip), others, reads,
      fun w other => by simp [Ne.symm other, labels], ?_⟩
    rw [← before]
    simpa [statementsAt, found] using stmts
  · next missing =>
    simp only [Outcome.pure_eq, Outcome.returns.injEq] at entered
    subst cfg
    refine ⟨rfl, rfl, same, others, reads, fun w _ => labels w, ?_⟩
    have empty : statementsAt middle v = [] := by simp [statementsAt, missing]
    rw [← before, empty]
    rfl

def entering (g : ControlFlowGraph) (edges : List Nat) (v : Nat) : List Nat :=
  edges.filter fun e => g.target e == some v

theorem mem_entering {g : ControlFlowGraph} {edges : List Nat} {e v : Nat} :
    e ∈ entering g edges v ↔ e ∈ edges ∧ ∃ u, g.edges[e]? = some (u, v) := by
  simp only [entering, List.mem_filter, beq_iff_eq, AdjacencyList.target, Option.map_eq_some_iff, Prod.exists]
  refine and_congr_right fun _ => ⟨?_, ?_⟩
  · intro holds
    obtain ⟨u, w, stored, same⟩ := holds
    exact ⟨u, same ▸ stored⟩
  · intro holds
    obtain ⟨u, stored⟩ := holds
    exact ⟨u, v, stored, rfl⟩

/-- A graph ready for renaming: phi functions come first in their blocks, have an
operand for every edge, and are for variables the entry block assigns. -/
structure Prepared (g : ControlFlowGraph) (start : Nat) : Prop where
  valid : g.Consistent
  shape : ∀ v bb, g.vertexLabel v = some (.resolved bb) → PhisFirst bb.mnemonics
  phis : ∀ v stmt ops into, stmt ∈ statementsAt g v → stmt.op = .phi ops → g.inEdges[v]? = some into →
    ∃ x len, stmt = phiStatement x len into.length ∧ ∃ first ∈ statementsAt g start, ∃ size, first.assignee = .var x none size

variable {g : ControlFlowGraph} {start : Nat} {idom : DominatorTable} {lin : Nat → List Nat}

/-- The version of `x` in scope at the source of an edge. -/
def exitVersion (g : ControlFlowGraph) (lin : Nat → List Nat) (x : String) (e : Nat) : Option Nat :=
  (g.source e).bind fun u => (scopeOf g (lin u) x).head?

/-- Phi operands after some edges have been filled in. -/
def operandsFor (g : ControlFlowGraph) (lin : Nat → List Nat) (edges : List Nat) (x : String) (len arity : Nat) :
    List Rvalue :=
  edges.map (fun e => .var x (exitVersion g lin x e) 0 len) ++ List.replicate (arity - edges.length) (.var x none 0 len)

/-- State of the walk after the blocks in `trail` have been entered and all but those in `opened` left again. -/
structure Walk (g : ControlFlowGraph) (start : Nat) (lin : Nat → List Nat) (opened trail : List Nat) (st : Renaming) :
    Prop where
  graph : Relabelled g st.cfg
  nested : ∀ u ∈ opened, u ∈ trail
  current : ∀ x, scope st.versions x = scopeOf st.cfg opened x
  unique : ∀ x, (scopeOf st.cfg trail x).Nodup
  bounded : ∀ x, ∀ i ∈ scopeOf st.cfg trail x, i < next st.versions x
  numbered : ∀ v ∈ trail, Numbered (statementsAt st.cfg v)
  reads : ∀ v ∈ trail, Reads (scopeOf st.cfg (lin v).tail) (statementsAt st.cfg v)
  upward : ∀ v ∈ trail, start ∈ lin v ∧ ∀ u ∈ lin v, u ∈ trail
  sources : ∀ e ∈ st.filled, ∃ u v, g.edges[e]? = some (u, v) ∧ u ∈ trail
  nodup : st.filled.Nodup
  guards : ∀ e ∈ st.filled, ∀ u v, g.edges[e]? = some (u, v) → ∀ flag expected,
    st.cfg.edgeLabel e = some (.predicate flag expected) → ReadsFrom (scopeOf st.cfg (lin u)) flag
  phis : ∀ v stmt x len into, stmt ∈ statementsAt st.cfg v → stmt.strip = phiStatement x len into.length →
    g.inEdges[v]? = some into → stmt.op = .phi (operandsFor st.cfg lin (entering g st.filled v) x len into.length)

namespace Walk
variable {opened trail : List Nat} {st st' : Renaming} {b : Nat}

theorem exitVersion_congr {g g' : ControlFlowGraph} (edges : g'.edges = g.edges) {e : Nat}
    (same : ∀ u, g.source e = some u → ∀ v ∈ lin u, ∀ x, definedAt g' v x = definedAt g v x) (x : String) :
    exitVersion g' lin x e = exitVersion g lin x e := by
  have source : g'.source e = g.source e := by simp [AdjacencyList.source, edges]
  unfold exitVersion
  rw [source]
  cases found : g.source e with
  | none => rfl
  | some u =>
    simp only [Option.bind_some]
    rw [scopeOf_congr (same u found)]

private theorem sources_inside (walk : Walk g start lin opened trail st) {e u : Nat} (member : e ∈ st.filled)
    (source : st.cfg.source e = some u) : u ∈ trail := by
  obtain ⟨u', v, stored, inside⟩ := walk.sources e member
  simp only [AdjacencyList.source, walk.graph.edges, stored, Option.map_some, Option.some.injEq] at source
  exact source ▸ inside

private theorem operandsFor_congr (walk : Walk g start lin opened trail st) {cfg : ControlFlowGraph}
    (edges : cfg.edges = st.cfg.edges) (same : ∀ v ∈ trail, ∀ x, definedAt cfg v x = definedAt st.cfg v x)
    {entered : List Nat} (inside : ∀ e ∈ entered, e ∈ st.filled) (x : String) (len arity : Nat) :
    operandsFor cfg lin entered x len arity = operandsFor st.cfg lin entered x len arity := by
  unfold operandsFor
  congr 1
  apply List.map_congr_left
  intro e member
  rw [exitVersion_congr edges fun u found v above => same v ((walk.upward u
    (walk.sources_inside (inside e member) found)).2 v above)]

theorem shape (prep : Prepared g start) (walk : Walk g start lin opened trail st) (bb : BasicBlock)
    (found : st.cfg.vertexLabel b = some (.resolved bb)) : PhisFirst bb.mnemonics := by
  obtain ⟨old, before, strip⟩ := walk.graph.block found
  exact (prep.shape b old before).congr (congrArg BasicBlock.mnemonics strip)

theorem block (prep : Prepared g start) (walk : Walk g start lin opened trail st) (new : b ∉ trail)
    (line : lin b = b :: opened) (rooted : start ∈ b :: opened) (renamed : renameBlock b st = .returns st') :
    Walk g start lin (b :: opened) (b :: trail) st' := by
  obtain ⟨filled, relabelled, guards, others, renames, ops⟩ := renameBlock_spec (walk.shape prep) renamed
  have same : ∀ v ∈ trail, statementsAt st'.cfg v = statementsAt st.cfg v :=
    fun v member => statementsAt_congr (others v fun equal => new (equal ▸ member))
  have defined : ∀ v ∈ trail, ∀ x, definedAt st'.cfg v x = definedAt st.cfg v x :=
    fun v member x => congrArg (assigned · x) (same v member)
  have scopes : ∀ line : List Nat, (∀ v ∈ line, v ∈ trail) → scopeOf st'.cfg line = scopeOf st.cfg line :=
    fun line inside => funext (scopeOf_congr fun v member => defined v (inside v member))
  have trailing := scopes trail fun _ member => member
  constructor
  · exact walk.graph.trans relabelled
  · exact List.forall_mem_cons.mpr ⟨List.mem_cons_self, fun u member => List.mem_cons_of_mem _ (walk.nested u member)⟩
  · intro x
    rw [renames.assigns.scope, walk.current, ← scopes opened walk.nested]
    rfl
  · intro x
    have old := walk.unique x
    obtain ⟨nodup, -, bounds⟩ := renames.assigns.versions x
    rw [← trailing] at old
    refine List.nodup_append.mpr ⟨nodup, old, ?_⟩
    intro i member j earlier equal
    have low := walk.bounded x j (trailing ▸ earlier)
    have high := (bounds i member).1
    omega
  · intro x i member
    obtain ⟨-, grows, bounds⟩ := renames.assigns.versions x
    rcases List.mem_append.mp member with here | earlier
    · exact (bounds i here).2
    · have low := walk.bounded x i (trailing ▸ earlier)
      omega
  · refine List.forall_mem_cons.mpr ⟨renames.numbered, fun v member => ?_⟩
    rw [same v member]
    exact walk.numbered v member
  · refine List.forall_mem_cons.mpr ⟨?_, fun v member => ?_⟩
    · rw [line, List.tail_cons, scopes opened walk.nested, ← funext walk.current]
      exact renames.reads
    · rw [same v member, scopes _ fun u above => (walk.upward v member).2 u (List.mem_of_mem_tail above)]
      exact walk.reads v member
  · refine List.forall_mem_cons.mpr ⟨⟨line ▸ rooted, ?_⟩, fun v member => ⟨(walk.upward v member).1, ?_⟩⟩
    · rw [line]
      exact List.forall_mem_cons.mpr ⟨List.mem_cons_self, fun u above => List.mem_cons_of_mem _ (walk.nested u above)⟩
    · exact fun u above => List.mem_cons_of_mem _ ((walk.upward v member).2 u above)
  · intro e member
    obtain ⟨u, v, stored, inside⟩ := walk.sources e (filled ▸ member)
    exact ⟨u, v, stored, List.mem_cons_of_mem _ inside⟩
  · exact filled ▸ walk.nodup
  · intro e member u v stored flag expected label
    obtain ⟨u', v', stored', inside⟩ := walk.sources e (filled ▸ member)
    rw [stored] at stored'
    cases stored'
    rw [scopes _ (walk.upward u inside).2]
    exact walk.guards e (filled ▸ member) u v stored flag expected (guards e ▸ label)
  · intro v stmt x len into member strip list
    obtain ⟨old, before, strip', op⟩ : ∃ old ∈ statementsAt st.cfg v, old.strip = stmt.strip ∧ old.op = stmt.op := by
      by_cases here : v = b
      · subst v
        have phi : stmt.op.isPhi = true := by
          rw [← Statement.strip_isPhi, strip]
          rfl
        have head : (stmt.assignee.strip, stmt.op) ∈ phiHeads (statementsAt st.cfg b) :=
          ops ▸ List.mem_map.mpr ⟨stmt, List.mem_filter.mpr ⟨member, phi⟩, rfl⟩
        obtain ⟨old, before, same⟩ := List.mem_map.mp head
        obtain ⟨target, op⟩ := Prod.mk.inj same
        exact ⟨old, (List.mem_filter.mp before).1, by simp [Statement.strip, target, op], op⟩
      · exact ⟨stmt, statementsAt_congr (others v here) ▸ member, rfl, rfl⟩
    rw [← op, walk.phis v old x len into before (strip'.trans strip) list, filled,
      walk.operandsFor_congr relabelled.edges defined fun e inside => (mem_entering.mp inside).1]

/-- A variable assigned before renaming has a version once its block has been entered. -/
theorem defined (walk : Walk g start lin opened trail st) {v size : Nat} {x : String} {stmt : Statement} (inside : v ∈ trail)
    (member : stmt ∈ statementsAt g v) (target : stmt.assignee = .var x none size) : definedAt st.cfg v x ≠ [] :=
  assigned_of_strip (walk.numbered v inside) (walk.graph.statements v) member target

theorem inside_scope (walk : Walk g start lin opened trail st) {v size : Nat} {x : String} {stmt : Statement}
    (inside : v ∈ trail) (member : stmt ∈ statementsAt g start) (target : stmt.assignee = .var x none size) :
    ∃ i, (scopeOf st.cfg (lin v) x).head? = some i := by
  obtain ⟨rooted, upward⟩ := walk.upward v inside
  obtain ⟨i, first⟩ := List.exists_mem_of_ne_nil _ (walk.defined (upward start rooted) member target)
  have nonempty : scopeOf st.cfg (lin v) x ≠ [] :=
    List.ne_nil_of_mem (List.mem_flatMap.mpr ⟨start, rooted, first⟩)
  exact ⟨_, List.head?_eq_some_head nonempty⟩

private theorem exit_version (walk : Walk g start lin opened trail st) {e size : Nat} {x : String} {stmt : Statement}
    (filled : e ∈ st.filled) (member : stmt ∈ statementsAt g start) (target : stmt.assignee = .var x none size) :
    ∃ i, exitVersion st.cfg lin x e = some i := by
  obtain ⟨u, v, stored, inside⟩ := walk.sources e filled
  obtain ⟨i, top⟩ := walk.inside_scope inside member target
  refine ⟨i, ?_⟩
  simpa [exitVersion, AdjacencyList.source, walk.graph.edges, stored] using top

private theorem entering_length (walk : Walk g start lin opened trail st) (valid : g.Consistent) {v e u : Nat} {into : List Nat}
    (list : g.inEdges[v]? = some into) (stored : g.edges[e]? = some (u, v)) (new : e ∉ st.filled) :
    (entering g st.filled v).length < into.length := by
  obtain ⟨-, members⟩ := valid.inList v into list
  have nodup : (e :: entering g st.filled v).Nodup :=
    List.nodup_cons.mpr ⟨fun member => new (mem_entering.mp member).1, walk.nodup.filter _⟩
  have subset : e :: entering g st.filled v ⊆ into := by
    intro d member
    rcases List.mem_cons.mp member with rfl | member
    · exact (members d).mpr ⟨u, stored⟩
    · exact (members d).mpr (mem_entering.mp member).2
  have length := (List.subperm_of_subset nodup subset).length_le
  simpa using length

theorem edge (prep : Prepared g start) (walk : Walk g start lin (lin b) trail st) (inside : b ∈ trail) {e v : Nat}
    (stored : g.edges[e]? = some (b, v)) (new : e ∉ st.filled) (renamed : renameEdge st e = .returns st') :
    Walk g start lin (lin b) trail st' := by
  obtain ⟨filled, versions, relabelled, guards, reads, others, targets⟩ :=
    renameEdge_spec (by rw [walk.graph.edges]; exact stored) renamed
  have defined : ∀ w x, definedAt st'.cfg w x = definedAt st.cfg w x := by
    intro w x
    by_cases here : w = v
    · subst w
      exact assigned_congr (filled_assignees targets).1 x
    · exact congrArg (assigned · x) (statementsAt_congr (others w here))
  have scopes : ∀ line : List Nat, scopeOf st'.cfg line = scopeOf st.cfg line :=
    fun line => funext (scopeOf_congr fun w _ => defined w)
  have exits : ∀ d x, exitVersion st'.cfg lin x d = exitVersion st.cfg lin x d :=
    fun d x => exitVersion_congr relabelled.edges (fun _ _ w _ => defined w) x
  constructor
  · exact walk.graph.trans relabelled
  · exact walk.nested
  · intro x
    rw [versions, scopes, walk.current]
  · intro x
    rw [scopes]
    exact walk.unique x
  · intro x
    rw [scopes, versions]
    exact walk.bounded x
  · intro w member
    by_cases here : w = v
    · subst w
      intro stmt listed x subscript size target
      have assignee : stmt.assignee ∈ (statementsAt st.cfg v).map Statement.assignee :=
        (filled_assignees targets).1 ▸ List.mem_map_of_mem listed
      obtain ⟨old, before, same⟩ := List.mem_map.mp assignee
      exact walk.numbered v member old before x subscript size (same.trans target)
    · rw [statementsAt_congr (others w here)]
      exact walk.numbered w member
  · intro w member
    rw [scopes]
    by_cases here : w = v
    · subst w
      exact (walk.reads v member).filled targets
    · rw [statementsAt_congr (others w here)]
      exact walk.reads w member
  · exact walk.upward
  · intro d member
    rw [filled] at member
    rcases List.mem_append.mp member with member | member
    · exact walk.sources d member
    · rw [List.mem_singleton.mp member]
      exact ⟨b, v, stored, inside⟩
  · rw [filled]
    refine List.nodup_append.mpr ⟨walk.nodup, by simp, ?_⟩
    intro d member d' single
    rw [List.mem_singleton.mp single]
    exact fun same => new (same ▸ member)
  · intro d member u w stored' flag expected label
    rw [scopes]
    by_cases here : d = e
    · subst d
      rw [stored] at stored'
      cases stored'
      rw [← funext walk.current]
      exact reads flag expected label
    · rw [filled] at member
      have member := (List.mem_append.mp member).resolve_right fun single => here (List.mem_singleton.mp single)
      exact walk.guards d member u w stored' flag expected (guards d here ▸ label)
  · intro w stmt x len into member strip list
    have operands : ∀ edges arity, operandsFor st'.cfg lin edges x len arity = operandsFor st.cfg lin edges x len arity := by
      intro edges arity
      simp only [operandsFor, exits]
    rw [operands]
    by_cases here : w = v
    · subst w
      obtain ⟨old, before, step⟩ := (Outcome.mem_each targets stmt).mp member
      obtain ⟨-, same, kind⟩ := fillStatement_spec step
      have phi := walk.phis v old x len into before (same ▸ strip) list
      rcases kind with ⟨plain, -⟩ | ⟨ops, ops', before', after, walked⟩
      · rw [phi] at plain
        cases plain
      · rw [after]
        rw [before'] at phi
        cases phi
        obtain ⟨k, room⟩ : ∃ k, into.length - (entering g st.filled v).length = k + 1 := by
          have := walk.entering_length prep.valid list stored new
          exact ⟨into.length - (entering g st.filled v).length - 1, by omega⟩
        -- the variable has a version at every source filled in so far
        obtain ⟨root, first, size, target⟩ : ∃ root ∈ statementsAt g start, ∃ size, root.assignee = .var x none size := by
          have listed : stmt.strip ∈ (statementsAt g v).map Statement.strip :=
            (walk.graph.trans relabelled).statements v ▸ List.mem_map_of_mem member
          obtain ⟨source, inside, equal⟩ := List.mem_map.mp listed
          have isPhi : source.op.isPhi = true := by
            rw [← Statement.strip_isPhi, equal, strip]
            rfl
          obtain ⟨ops'', kind⟩ : ∃ ops'', source.op = .phi ops'' := by
            cases kind : source.op <;> simp_all [Operation.isPhi]
          obtain ⟨y, len', rfl, root⟩ := prep.phis v source ops'' into inside kind list
          have names : (phiStatement y len' into.length).strip.assignee = (phiStatement x len into.length).assignee := by
            rw [equal, strip]
          simp only [Statement.strip, phiStatement, Lvalue.strip, Lvalue.var.injEq] at names
          exact names.1 ▸ root
        rw [operandsFor, room, List.replicate_succ] at walked
        have done := fillOperands_next (fun rv listed => by
          obtain ⟨d, entered, rfl⟩ := List.mem_map.mp listed
          obtain ⟨i, version⟩ := walk.exit_version (mem_entering.mp entered).1 first target
          exact ⟨x, i, 0, len, by rw [version]⟩) walked
        have last : entering g st'.filled v = entering g st.filled v ++ [e] := by
          simp [entering, filled, List.filter_append, AdjacencyList.target, stored]
        have exit : exitVersion st.cfg lin x e = (scope st.versions x).head? := by
          simp [exitVersion, AdjacencyList.source, walk.graph.edges, stored, walk.current]
        rw [done, operandsFor, last, List.map_append, List.length_append, List.length_singleton,
          show into.length - ((entering g st.filled v).length + 1) = k by omega]
        simp [exit]
    · have last : entering g st'.filled w = entering g st.filled w := by
        simp [entering, filled, List.filter_append, AdjacencyList.target, stored, Ne.symm here]
      rw [last]
      exact walk.phis w stmt x len into (statementsAt_congr (others w here) ▸ member) strip list

theorem edges (prep : Prepared g start) (walk : Walk g start lin (lin b) trail st) (inside : b ∈ trail) {items : List Nat}
    (nodup : items.Nodup) (outgoing : ∀ e ∈ items, ∃ v, g.edges[e]? = some (b, v)) (new : ∀ e ∈ items, e ∉ st.filled)
    (renamed : Outcome.fold renameEdge st items = .returns st') :
    Walk g start lin (lin b) trail st' ∧ st'.filled = st.filled ++ items := by
  induction items generalizing st with
  | nil =>
    cases renamed
    exact ⟨walk, by simp⟩
  | cons e items ih =>
    simp only [Outcome.fold, Outcome.bind_eq_returns] at renamed
    obtain ⟨middle, step, rest⟩ := renamed
    obtain ⟨v, stored⟩ := outgoing e (by simp)
    have next := walk.edge prep inside stored (new e (by simp)) step
    have filled := (renameEdge_spec (by rw [walk.graph.edges]; exact stored) step).1
    obtain ⟨absent, nodup⟩ := List.nodup_cons.mp nodup
    obtain ⟨final, all⟩ := ih next nodup (fun d member => outgoing d (by simp [member])) (fun d member => by
      rw [filled]
      intro present
      rcases List.mem_append.mp present with old | same
      · exact new d (by simp [member]) old
      · exact absent (List.mem_singleton.mp same ▸ member)) rest
    exact ⟨final, by rw [all, filled, List.append_assoc, List.singleton_append]⟩

private theorem popBlock_eq (b : Nat) (st : Renaming) :
    popBlock b st = { st with versions := (statementsAt st.cfg b).foldl popStatement st.versions } := by
  unfold popBlock statementsAt
  cases st.cfg.vertexLabel b with
  | none => rfl
  | some lb => cases lb <;> rfl

theorem leave (walk : Walk g start lin (b :: opened) trail st) : Walk g start lin opened trail (popBlock b st) := by
  rw [popBlock_eq]
  exact {
    graph := walk.graph
    nested := fun u member => walk.nested u (by simp [member])
    current := by
      intro x
      rw [scope_pops (walk.numbered b (walk.nested b (by simp))), walk.current]
      exact List.drop_left
    unique := walk.unique
    bounded := by
      intro x i member
      rw [next_pops]
      exact walk.bounded x i member
    numbered := walk.numbered
    reads := walk.reads
    upward := walk.upward
    sources := walk.sources
    nodup := walk.nodup
    guards := walk.guards
    phis := walk.phis }

/-- Every edge out of an entered block has been filled in. -/
def Complete (g : ControlFlowGraph) (trail filled : List Nat) : Prop :=
  ∀ e u v, g.edges[e]? = some (u, v) → u ∈ trail → e ∈ filled

theorem enter (prep : Prepared g start) (walk : Walk g start lin opened trail st) (complete : Complete g trail st.filled)
    (new : b ∉ trail) (line : lin b = b :: opened) (rooted : start ∈ b :: opened)
    (entered : enterBlock b st = .returns st') :
    Walk g start lin (b :: opened) (b :: trail) st' ∧ Complete g (b :: trail) st'.filled := by
  simp only [enterBlock, outgoing, Outcome.bind_eq_returns, Outcome.unwrap_eq_returns] at entered
  obtain ⟨middle, renamed, succ, list, edges⟩ := entered
  have here := walk.block prep new line rooted renamed
  have kept : middle.filled = st.filled := (renameBlock_spec (walk.shape prep) renamed).1
  rw [here.graph.outEdges] at list
  obtain ⟨nodup, members⟩ := prep.valid.outList b succ list
  have sorted := List.perm_insertionSort (· ≤ ·) succ
  have unfilled : ∀ e ∈ succ, e ∉ middle.filled := by
    intro e member filled
    obtain ⟨v, stored⟩ := (members e).mp member
    obtain ⟨u, w, stored', inside⟩ := walk.sources e (kept ▸ filled)
    rw [stored] at stored'
    cases stored'
    exact new inside
  rw [← line] at here
  obtain ⟨final, filled⟩ := here.edges prep (by simp) (sorted.nodup_iff.mpr nodup)
    (fun e member => (members e).mp (sorted.mem_iff.mp member)) (fun e member => unfilled e (sorted.mem_iff.mp member)) edges
  refine ⟨line ▸ final, ?_⟩
  intro e u v stored member
  rw [filled, kept]
  rcases List.mem_cons.mp member with rfl | member
  · exact List.mem_append_right _ (sorted.mem_iff.mpr ((members e).mpr ⟨v, stored⟩))
  · exact List.mem_append_left _ (complete e u v stored member)

end Walk

theorem mem_children {orders : SsaOrders} {idom : DominatorTable} {b k : Nat} :
    k ∈ children orders idom b ↔ idom[k]? = some b ∧ k ≠ b := by
  simp only [children, List.mem_map, List.mem_filter, Enumeration.mem_list, Bool.and_eq_true, beq_iff_eq, bne_iff_ne,
    Prod.exists, exists_and_right, exists_eq_right]
  constructor
  · intro holds
    obtain ⟨d, member, same, other⟩ := holds
    exact ⟨same ▸ Std.ExtTreeMap.mem_toList_iff_getElem?_eq_some.mp member, other⟩
  · intro holds
    obtain ⟨found, other⟩ := holds
    exact ⟨b, Std.ExtTreeMap.mem_toList_iff_getElem?_eq_some.mpr found, rfl, other⟩

private theorem nodup_children (orders : SsaOrders) (idom : DominatorTable) (b : Nat) : (children orders idom b).Nodup := by
  have keys : ((orders.idom.list idom.toList).map Prod.fst).Nodup := by
    rw [((orders.idom.perm _).map _).nodup_iff, Std.ExtTreeMap.map_fst_toList_eq_keys]
    exact Std.ExtTreeMap.nodup_keys
  exact keys.sublist (List.filter_sublist.map _)

section Tree
variable {orders : SsaOrders} (prep : Prepared g start) (tree : Dominator.DominatorTree g start idom)
  (lines : ∀ v, (g.vertexLabel v).isSome → Lineage start (idom[·]?) v (lin v))
include prep tree lines

/-- The lineage of a child is the lineage of its parent with the child in front. -/
theorem child_line {b k : Nat} (parent : idom[k]? = some b) (other : k ≠ b) :
    (g.vertexLabel k).isSome ∧ k ≠ start ∧ lin k = k :: lin b := by
  have labelled : (g.vertexLabel k).isSome :=
    (tree.keys k).mp (by simp [Std.ExtTreeMap.contains_eq_isSome_getElem?, parent])
  have inner : k ≠ start := by
    intro same
    rw [same, tree.root] at parent
    cases parent
    exact other same
  refine ⟨labelled, inner, ?_⟩
  generalize whole : lin k = line
  have lineage := whole ▸ lines k labelled
  cases lineage with
  | root => exact absurd rfl inner
  | @child _ d above _ found rest =>
    rw [parent] at found
    cases found
    have inside : (g.vertexLabel b).isSome := by
      have reached := tree.settled.dominates (Relation.ReflTransGen.single ⟨inner, parent⟩)
      obtain ⟨walk, trace⟩ := tree.reachable k ((tree.keys k).mpr labelled)
      obtain ⟨before, found, -⟩ := trace.upto (reached walk trace)
      exact Dominator.labelled_of_reachable prep.valid ((tree.keys start).mp
        (by simp [Std.ExtTreeMap.contains_eq_isSome_getElem?, tree.root])) ⟨before, found⟩
    rw [rest.unique (lines b inside)]

private theorem children_disjoint {b k k' v : Nat} (parent : idom[k]? = some b) (other : k ≠ b) (parent' : idom[k']? = some b)
    (other' : k' ≠ b) (labelled : (g.vertexLabel v).isSome) (above : k ∈ lin v) (above' : k' ∈ lin v) : k = k' := by
  obtain ⟨present, -, line⟩ := child_line prep tree lines parent other
  obtain ⟨present', -, line'⟩ := child_line prep tree lines parent' other'
  obtain ⟨rest, lineage, suffix⟩ := (lines v labelled).upto above
  obtain ⟨rest', lineage', suffix'⟩ := (lines v labelled).upto above'
  rw [lineage.unique (lines k present), line] at suffix
  rw [lineage'.unique (lines k' present'), line'] at suffix'
  have same := List.suffix_of_suffix_length_le suffix suffix' (by simp)
  have equal := same.eq_of_length (by simp)
  exact (List.cons.inj equal).1

/-- A vertex below `b` is `b` or below one of its children. -/
theorem below_iff {b v : Nat} (present : (g.vertexLabel b).isSome) (labelled : (g.vertexLabel v).isSome) :
    b ∈ lin v ↔ v = b ∨ ∃ k ∈ children orders idom b, k ∈ lin v := by
  constructor
  · intro above
    by_cases same : v = b
    · exact .inl same
    · obtain ⟨k, member, inner, parent⟩ := (lines v labelled).child_of_mem above (Ne.symm same)
      refine .inr ⟨k, mem_children.mpr ⟨parent, ?_⟩, member⟩
      intro equal
      subst b
      exact (lines k present).notMem_parent inner parent (lines k present).mem
  · intro below
    rcases below with rfl | ⟨k, child, above⟩
    · exact (lines v labelled).mem
    · obtain ⟨parent, other⟩ := mem_children.mp child
      obtain ⟨present', -, line⟩ := child_line prep tree lines parent other
      obtain ⟨rest, lineage, suffix⟩ := (lines v labelled).upto above
      rw [lineage.unique (lines k present'), line] at suffix
      exact suffix.subset (List.mem_cons_of_mem _ (lines b present).mem)

/-- The walk enters every vertex below `b` once and restores the versions in scope. -/
theorem rename_walk {fuel b : Nat} {opened trail : List Nat} {st st' : Renaming} (present : (g.vertexLabel b).isSome)
    (walk : Walk g start lin opened trail st) (complete : Walk.Complete g trail st.filled) (line : lin b = b :: opened)
    (visited : ∀ v ∈ trail, (g.vertexLabel v).isSome ∧ b ∉ lin v)
    (renamed : rename orders idom fuel b st = .returns st') :
    ∃ trail', Walk g start lin opened trail' st' ∧ Walk.Complete g trail' st'.filled ∧
      ∀ v, v ∈ trail' ↔ v ∈ trail ∨ ((g.vertexLabel v).isSome ∧ b ∈ lin v) := by
  induction fuel generalizing b opened trail st st' with
  | zero => cases renamed
  | succ fuel ih =>
    simp only [rename, Outcome.bind_eq_returns, Outcome.pure_eq, Outcome.returns.injEq] at renamed
    obtain ⟨first, entered, last, descended, rfl⟩ := renamed
    have new : b ∉ trail := fun member => (visited b member).2 (lines b present).mem
    obtain ⟨here, filled⟩ := walk.enter prep complete new line (line ▸ (lines b present).start_mem) entered
    rw [← line] at here
    have descend : ∀ (ks : List Nat) (before : List Nat) (st0 : Renaming), Walk g start lin (lin b) before st0 →
        Walk.Complete g before st0.filled → ks.Nodup → (∀ k ∈ ks, idom[k]? = some b ∧ k ≠ b) →
        (∀ v ∈ before, (g.vertexLabel v).isSome ∧ ∀ k ∈ ks, k ∉ lin v) →
        Outcome.fold (fun st k => rename orders idom fuel k st) st0 ks = .returns last →
        ∃ after, Walk g start lin (lin b) after last ∧ Walk.Complete g after last.filled ∧
          ∀ v, v ∈ after ↔ v ∈ before ∨ ((g.vertexLabel v).isSome ∧ ∃ k ∈ ks, k ∈ lin v) := by
      intro ks
      induction ks with
      | nil =>
        intro before st0 walk complete _ _ _ folded
        cases folded
        exact ⟨before, walk, complete, by simp⟩
      | cons k ks rest =>
        intro before st0 walk complete nodup parents below folded
        simp only [Outcome.fold, Outcome.bind_eq_returns] at folded
        obtain ⟨middle, step, folded⟩ := folded
        obtain ⟨parent, other⟩ := parents k (by simp)
        obtain ⟨present', -, line'⟩ := child_line prep tree lines parent other
        obtain ⟨reached, walk', complete', members⟩ := ih present' walk complete line'
          (fun v member => ⟨(below v member).1, (below v member).2 k (by simp)⟩) step
        obtain ⟨absent, nodup⟩ := List.nodup_cons.mp nodup
        obtain ⟨after, walk'', complete'', members'⟩ := rest reached middle walk' complete' nodup
          (fun k' member => parents k' (by simp [member])) (fun v member => by
            rcases (members v).mp member with old | ⟨labelled, above⟩
            · exact ⟨(below v old).1, fun k' inside => (below v old).2 k' (by simp [inside])⟩
            · refine ⟨labelled, fun k' inside above' => ?_⟩
              obtain ⟨parent', other'⟩ := parents k' (by simp [inside])
              have same := children_disjoint prep tree lines parent other parent' other' labelled above above'
              exact absent (same ▸ inside)) folded
        refine ⟨after, walk'', complete'', ?_⟩
        intro v
        rw [members', members]
        simp only [List.mem_cons, exists_eq_or_imp, and_or_left, or_assoc]
    obtain ⟨after, walk', complete', members⟩ := descend (children orders idom b) (b :: trail) first here filled
      (nodup_children orders idom b) (fun k child => mem_children.mp child) (fun v member => by
        rcases List.mem_cons.mp member with rfl | member
        · refine ⟨present, fun k child above => ?_⟩
          obtain ⟨parent, other⟩ := mem_children.mp child
          obtain ⟨-, inner, -⟩ := child_line prep tree lines parent other
          exact (lines v present).notMem_parent inner parent above
        · obtain ⟨labelled, outside⟩ := visited v member
          refine ⟨labelled, fun k child above => outside ?_⟩
          exact (below_iff prep tree lines present labelled).mpr (.inr ⟨k, child, above⟩)) descended
    rw [line] at walk'
    refine ⟨after, walk'.leave, by rw [Walk.popBlock_eq]; exact complete', ?_⟩
    intro v
    rw [members, List.mem_cons]
    constructor
    · intro member
      rcases member with (rfl | old) | ⟨labelled, below⟩
      · exact .inr ⟨present, (lines v present).mem⟩
      · exact .inl old
      · exact .inr ⟨labelled, (below_iff prep tree lines present labelled).mpr (.inr below)⟩
    · intro member
      rcases member with old | ⟨labelled, below⟩
      · exact .inl (.inr old)
      · rcases (below_iff prep tree lines present labelled).mp below with same | child
        · exact .inl (.inl same)
        · exact .inr ⟨labelled, child⟩

end Tree

private theorem walk_initial (prep : Prepared g start) (globals : List String) :
    Walk g start lin [] [] ⟨⟨∅, globals.foldl (fun stack name => stack.insert name []) ∅⟩, g, []⟩ := by
  have empty : ∀ x, scope ⟨∅, globals.foldl (fun stack name => stack.insert name []) ∅⟩ x = [] := by
    intro x
    simp only [scope, getElem?_foldl_insert]
    split <;> simp
  refine ⟨.refl g, by simp, empty, fun _ => List.nodup_nil, by simp [scopeOf], by simp, by simp, by simp, by simp,
    List.nodup_nil, by simp, ?_⟩
  intro v stmt x len into member strip list
  obtain ⟨ops, phi⟩ : ∃ ops, stmt.op = .phi ops := by
    have isPhi : stmt.op.isPhi = true := by
      rw [← Statement.strip_isPhi, strip]
      rfl
    cases kind : stmt.op <;> simp_all [Operation.isPhi]
  obtain ⟨y, len', rfl, -⟩ := prep.phis v stmt ops into member phi list
  have names : (phiStatement y len' into.length).strip.assignee = (phiStatement x len into.length).assignee := by
    rw [strip]
  simp only [Statement.strip, phiStatement, Lvalue.strip, Lvalue.var.injEq, true_and] at names
  obtain ⟨rfl, rfl⟩ := names
  simp [phiStatement, operandsFor, entering]

/-- A function that has been renamed. -/
structure Renamed (g g' : ControlFlowGraph) (start : Nat) (filled : List Nat) (idom : DominatorTable)
    (lin : Nat → List Nat) : Prop where
  tree : Dominator.DominatorTree g start idom
  lines : ∀ v, (g.vertexLabel v).isSome → Lineage start (idom[·]?) v (lin v)
  walk : ∃ trail versions, Walk g start lin [] trail ⟨versions, g', filled⟩ ∧ Walk.Complete g trail filled ∧
    ∀ v, v ∈ trail ↔ (g.vertexLabel v).isSome

theorem renameVariables_renamed {orders : SsaOrders} {fuel : Nat} {f f' : Function} {filled : List Nat}
    (prep : Prepared f.cflowGraph f.entryPoint) (entry : (f.cflowGraph.vertexLabel f.entryPoint).isSome)
    (renamed : renameVariables orders fuel f = .returns (f', filled)) :
    f' = { f with cflowGraph := f'.cflowGraph } ∧
      ∃ idom lin, (Panopticon.Dominator.immediateDominator f.cflowGraph fuel f.entryPoint : Outcome Failure _) = .returns idom ∧
        Renamed f.cflowGraph f'.cflowGraph f.entryPoint filled idom lin := by
  simp only [renameVariables, Outcome.bind_eq_returns] at renamed
  obtain ⟨⟨globals, usage⟩, -, idom, dominators, rest⟩ := renamed
  split at rest
  · cases rest
  · next size =>
    simp only [Outcome.bind_eq_returns, Outcome.pure_eq, Outcome.returns.injEq, Prod.mk.injEq] at rest
    obtain ⟨st, walked, rfl, rfl⟩ := rest
    have tree := Dominator.immediateDominator_tree prep.valid entry dominators (not_not.mp size)
    have choice : ∀ v, ∃ line, (f.cflowGraph.vertexLabel v).isSome → Lineage f.entryPoint (idom[·]?) v line := by
      intro v
      by_cases labelled : (f.cflowGraph.vertexLabel v).isSome
      · obtain ⟨line, lineage⟩ := tree.lineage labelled
        exact ⟨line, fun _ => lineage⟩
      · exact ⟨[], fun contra => absurd contra labelled⟩
    choose lin lines using choice
    have root : lin f.entryPoint = [f.entryPoint] := (lines _ entry).unique .root
    obtain ⟨trail, walk, complete, members⟩ := rename_walk prep tree lines entry (walk_initial prep globals.toList)
      (fun _ _ _ _ member => (List.not_mem_nil member).elim) root (by simp) walked
    refine ⟨rfl, idom, lin, dominators, tree, lines, trail, st.versions, walk, complete, ?_⟩
    intro v
    rw [members]
    constructor
    · intro member
      exact (member.resolve_left List.not_mem_nil).1
    · exact fun labelled => .inr ⟨labelled, (lines v labelled).start_mem⟩

end Panopticon.Proofs.Renaming
