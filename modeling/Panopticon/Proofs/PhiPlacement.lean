import Panopticon.Proofs.Renaming

/-! Where phi functions are placed: `__init` heads the entry block, and the pairs of a
name and a block with a phi function are closed under the dominance frontiers. -/

namespace Panopticon.Proofs.PhiPlacement
open Library Ssa Proofs.Versions Proofs.Renaming AdjacencyList

/-- Two stores that differ in the labels of their vertices only. -/
structure OnlyLabels (g g' : AdjacencyList N E) : Prop where
  rest : g' = { g with vertexLabels := g'.vertexLabels }
  vertices : ∀ v, (g'.vertexLabel v).isSome ↔ (g.vertexLabel v).isSome

namespace OnlyLabels
variable {g g' g'' : AdjacencyList N E}

theorem refl (g : AdjacencyList N E) : OnlyLabels g g := ⟨rfl, fun _ => Iff.rfl⟩

theorem trans (first : OnlyLabels g g') (second : OnlyLabels g' g'') : OnlyLabels g g'' := by
  refine ⟨?_, fun v => (second.vertices v).trans (first.vertices v)⟩
  rw [second.rest, first.rest]

theorem setVertexLabel {v : Nat} (lb : N) (present : (g.vertexLabel v).isSome) :
    OnlyLabels g (g.setVertexLabel v lb) := by
  refine ⟨rfl, fun w => ?_⟩
  rw [vertexLabel_setVertexLabel]
  split
  · next same =>
    subst w
    simpa using present
  · rfl

theorem edges (only : OnlyLabels g g') : g'.edges = g.edges := by rw [only.rest]

theorem inEdges (only : OnlyLabels g g') : g'.inEdges = g.inEdges := by rw [only.rest]

theorem outEdges (only : OnlyLabels g g') : g'.outEdges = g.outEdges := by rw [only.rest]

theorem immediateDominator (only : OnlyLabels g g') (fuel start : Nat) :
    (Panopticon.Dominator.immediateDominator g' fuel start : Outcome ε _) =
      Panopticon.Dominator.immediateDominator g fuel start :=
  Dominator.immediateDominator_congr only.edges only.outEdges only.inEdges fuel start

theorem edgeLabel (only : OnlyLabels g g') (e : Nat) : g'.edgeLabel e = g.edgeLabel e := by
  rw [only.rest]
  rfl

theorem adjacent (only : OnlyLabels g g') : g'.Adjacent = g.Adjacent := by
  unfold Adjacent
  rw [only.edges]

theorem consistent (only : OnlyLabels g g') (valid : g.Consistent) : g'.Consistent := by
  have fields := only.rest
  refine ⟨?_, ?_, ?_, ?_, ?_, ?_, ?_, ?_⟩
  · intro e
    rw [only.edgeLabel, only.edges]
    exact valid.guarded e
  · intro v
    rw [only.vertices, fields]
    exact valid.outKeys v
  · intro v
    rw [only.vertices, fields]
    exact valid.inKeys v
  · intro e u v stored
    rw [only.edges] at stored
    rw [only.vertices, only.vertices]
    exact valid.ends e u v stored
  · rw [fields]
    exact valid.outList
  · rw [fields]
    exact valid.inList
  · rw [fields]
    exact valid.fresh
  · intro v present
    rw [fields]
    exact valid.freshVertex v ((only.vertices v).mp present)

end OnlyLabels

private theorem mapM_ok {α β : Type} {f : α → Except String β} {as : List α} {bs : List β} (mapped : as.mapM f = .ok bs) :
    List.Forall₂ (fun a b => f a = .ok b) as bs := by
  induction as generalizing bs with
  | nil =>
    cases mapped
    exact .nil
  | cons a as ih =>
    rw [List.mapM_cons] at mapped
    cases first : f a with
    | error e => simp [first, bind, Except.bind] at mapped
    | ok b =>
      cases rest : as.mapM f with
      | error e => simp [first, rest, bind, Except.bind] at mapped
      | ok others =>
        simp only [first, rest, bind, Except.bind, pure, Except.pure, Except.ok.injEq] at mapped
        subst bs
        exact .cons first (ih rest)

def lengthIn (lens : Lengths) (x : String) : Nat := lens[x]?.getD 0

def initOf (lens : Lengths) (x : String) : Statement := ⟨.var x none (lengthIn lens x), .move .undefined⟩

private theorem initStatement_ok {lens : Lengths} {x : String} {stmt : Statement} (found : initStatement lens x = .ok stmt) :
    stmt = initOf lens x := by
  unfold initStatement lengthOf at found
  split at found
  · next len known =>
    simp only [Except.map, Except.ok.injEq] at found
    simp [← found, initOf, lengthIn, known]
  · simp [Except.map] at found

def initMnemonic (lens : Lengths) (names : List String) (bb : BasicBlock) : Mnemonic :=
  pseudoMnemonic bb.area.start "__init" (names.map (initOf lens))

theorem insertInit_spec {orders : SsaOrders} {lens : Lengths} {globals : Liveness.Names} {f : Function}
    {cfg : ControlFlowGraph} (inserted : insertInit orders lens globals f = .returns cfg) :
    ∃ bb, f.cflowGraph.vertexLabel f.entryPoint = some (.resolved bb) ∧
      cfg = f.cflowGraph.setVertexLabel f.entryPoint (.resolved (insertMnemonic bb
        (initMnemonic lens (orders.globals.list globals.toList) bb))) := by
  simp only [insertInit, Outcome.bind_eq_returns] at inserted
  obtain ⟨bb, entry, answer⟩ := inserted
  have found : f.cflowGraph.vertexLabel f.entryPoint = some (.resolved bb) := by
    unfold entryBlock at entry
    split at entry
    · next found =>
      cases entry
      exact found
    · cases entry
  refine ⟨bb, found, ?_⟩
  split at answer
  · cases answer
  · next instrs mapped =>
    simp only [Outcome.pure_eq, Outcome.returns.injEq] at answer
    have statements : instrs = (orders.globals.list globals.toList).map (initOf lens) := by
      have pairs := (mapM_ok mapped).imp fun _ _ => initStatement_ok
      rw [← List.forall₂_eq_eq_eq, List.forall₂_map_right_iff]
      exact pairs.flip
    rw [← answer, statements]
    rfl

section Placement
variable {orders : SsaOrders} {fuel : Nat} {lens : Lengths} {usage : Usage} {df : Panopticon.Dominator.Frontiers}

def arityAt (g : ControlFlowGraph) (d : Nat) : Nat := (g.inEdges[d]?.getD []).length

def phiMnemonic (lens : Lengths) (arity : Nat) (bb : BasicBlock) (x : String) : Mnemonic :=
  pseudoMnemonic bb.area.start "__phi" [phiStatement x (lengthIn lens x) arity]

/-- A label with phi functions for some names in front. -/
def prepend (lens : Lengths) (arity : Nat) (names : List String) : ControlFlowTarget → ControlFlowTarget
  | .resolved bb => .resolved { bb with mnemonics := names.map (phiMnemonic lens arity bb) ++ bb.mnemonics }
  | lb => lb

/-- The names with a phi function at `d`, the last one placed first. -/
def namesAt (phis : List (String × Nat)) (d : Nat) : List String :=
  (phis.filter fun entry => entry.2 == d).map Prod.fst

theorem mem_namesAt {phis : List (String × Nat)} {d : Nat} {x : String} : x ∈ namesAt phis d ↔ (x, d) ∈ phis := by
  simp only [namesAt, List.mem_map, List.mem_filter, beq_iff_eq, Prod.exists, exists_and_right, exists_eq_right]

/-- The graph of a placement is the initial one with the phi functions recorded so far. -/
structure Placed (g : ControlFlowGraph) (lens : Lengths) (globals : List String) (place : Placement) : Prop where
  only : OnlyLabels g place.cfg
  labels : ∀ v, place.cfg.vertexLabel v = (g.vertexLabel v).map (prepend lens (arityAt g v) (namesAt place.phis v))
  names : ∀ x d, (x, d) ∈ place.phis → x ∈ globals

private theorem prepend_nil (lens : Lengths) (arity : Nat) (lb : ControlFlowTarget) : prepend lens arity [] lb = lb := by
  cases lb <;> rfl

theorem Placed.initial (g : ControlFlowGraph) (lens : Lengths) (globals : List String) :
    Placed g lens globals ⟨g, [], ∅⟩ := by
  refine ⟨.refl g, fun v => ?_, by simp⟩
  have same : prepend lens (arityAt g v) [] = id := funext (prepend_nil lens _)
  simp [namesAt, same]

/-- Whether a vertex can take a phi function. -/
def Block (g : ControlFlowGraph) (d : Nat) : Prop := ∃ bb, g.vertexLabel d = some (.resolved bb)

variable {g : ControlFlowGraph} {globals : List String} {v : String}

theorem Placed.block {place : Placement} (placed : Placed g lens globals place) (d : Nat) :
    Block place.cfg d ↔ Block g d := by
  unfold Block
  rw [placed.labels d]
  cases g.vertexLabel d with
  | none => simp
  | some lb => cases lb <;> simp [prepend]

theorem placePhi_cases {place next : Placement} {d : Nat} (used : usage[v]?.isSome)
    (placed : Placed g lens globals place) (step : placePhi lens usage v place d = .returns next) :
    (next = place ∧ (Block g d → (v, d) ∈ place.phis)) ∨
    (∃ bb, place.cfg.vertexLabel d = some (.resolved bb) ∧ (v, d) ∉ place.phis ∧
      next = ⟨place.cfg.setVertexLabel d (.resolved (insertMnemonic bb (phiMnemonic lens (arityAt g d) bb v))),
        (v, d) :: place.phis, place.worklist.insert d⟩) := by
  simp only [placePhi, Outcome.bind_eq_returns] at step
  obtain ⟨arity, counted, step⟩ := step
  have count : arity = arityAt g d := by
    obtain ⟨blocks, known⟩ := Option.isSome_iff_exists.mp used
    simp only [argNum, incoming, known, Outcome.bind_eq_returns, Outcome.unwrap_eq_returns, Outcome.pure_eq,
      Outcome.returns.injEq] at counted
    obtain ⟨into, list, sources, ends, rfl⟩ := counted
    rw [placed.only.inEdges] at list
    rw [arityAt, list, Option.getD_some, (Outcome.each_eq_returns.mp ends).length_eq]
  split at step
  · next bb found =>
    split at step
    · next present =>
      simp only [Outcome.pure_eq, Outcome.returns.injEq] at step
      exact .inl ⟨step.symm, fun _ => by simpa using present⟩
    · next absent =>
      split at step
      · cases step
      · next len known =>
        simp only [Outcome.pure_eq, Outcome.returns.injEq] at step
        refine .inr ⟨bb, found, by simpa using absent, ?_⟩
        have size : len = lengthIn lens v := by
          unfold lengthOf at known
          split at known
          · next entry =>
            cases known
            simp [lengthIn, entry]
          · cases known
        rw [← step, size, count]
        rfl
  · next other =>
    simp only [Outcome.pure_eq, Outcome.returns.injEq] at step
    refine .inl ⟨step.symm, fun block => ?_⟩
    obtain ⟨bb, found⟩ := (placed.block d).mpr block
    exact absurd found (other bb)

theorem Placed.phi {place next : Placement} {d : Nat} (used : usage[v]?.isSome) (member : v ∈ globals)
    (placed : Placed g lens globals place) (step : placePhi lens usage v place d = .returns next) :
    Placed g lens globals next := by
  rcases placePhi_cases used placed step with ⟨rfl, -⟩ | ⟨bb, found, -, rfl⟩
  · exact placed
  · refine ⟨placed.only.trans (.setVertexLabel _ (by simp [found])), ?_, ?_⟩
    · intro w
      rw [vertexLabel_setVertexLabel]
      split
      · next same =>
        subst w
        have before := placed.labels d
        rw [found] at before
        cases label : g.vertexLabel d with
        | none => simp [label] at before
        | some lb =>
          rw [label] at before
          cases lb with
          | resolved old =>
            simp only [Option.map_some, prepend, Option.some.injEq, ControlFlowTarget.resolved.injEq] at before
            subst bb
            simp [prepend, namesAt, insertMnemonic, phiMnemonic]
          | unresolved => simp [prepend] at before
          | failed => simp [prepend] at before
      · next other =>
        rw [placed.labels w]
        simp [namesAt, other]
    · intro x d' listed
      rcases List.mem_cons.mp listed with same | listed
      · cases same
        exact member
      · exact placed.names x d' listed

/-- The frontier of `w` has phi functions for `v`. -/
def Closed (g : ControlFlowGraph) (df : Panopticon.Dominator.Frontiers) (v : String) (phis : List (String × Nat)) (w : Nat) :
    Prop :=
  ∃ frontiers, df[w]? = some frontiers ∧ ∀ d ∈ frontiers, Block g d → (v, d) ∈ phis

/-- Blocks in the iterated frontier of those where `source` holds. -/
inductive Iterated (g : ControlFlowGraph) (df : Panopticon.Dominator.Frontiers) (source : Nat → Prop) : Nat → Prop
  | first {w d : Nat} {frontiers : List Nat} : source w → df[w]? = some frontiers → d ∈ frontiers → Block g d →
      Iterated g df source d
  | again {w d : Nat} {frontiers : List Nat} : Iterated g df source w → df[w]? = some frontiers → d ∈ frontiers →
      Block g d → Iterated g df source d

def Assigning (usage : Usage) (v : String) (w : Nat) : Prop := w ∈ usage[v]?.getD ∅

theorem Assigning.used {w : Nat} (assigns : Assigning usage v w) : usage[v]?.isSome := by
  unfold Assigning at assigns
  cases known : usage[v]? with
  | none => simp [known] at assigns
  | some blocks => rfl

theorem Iterated.source {source : Nat → Prop} {d : Nat} (iterated : Iterated g df source d) : ∃ w, source w := by
  induction iterated with
  | first holds _ _ _ => exact ⟨_, holds⟩
  | again _ _ _ _ ih => exact ih

/-- Loop invariant for one name: all phi functions and assignments not on the worklist are closed, but for
the block being processed, and every phi function has a cause. -/
structure Placing (g : ControlFlowGraph) (lens : Lengths) (globals : List String) (usage : Usage)
    (df : Panopticon.Dominator.Frontiers) (v : String) (old : List (String × Nat)) (processed : Option Nat)
    (place : Placement) : Prop where
  placed : Placed g lens globals place
  others : ∀ x d, x ≠ v → ((x, d) ∈ place.phis ↔ (x, d) ∈ old)
  closed : ∀ w, Assigning usage v w ∨ (v, w) ∈ place.phis →
    w ∈ place.worklist ∨ Closed g df v place.phis w ∨ processed = some w
  caused : ∀ d, (v, d) ∈ place.phis → Iterated g df (Assigning usage v) d
  worklist : ∀ w ∈ place.worklist, Assigning usage v w ∨ (v, w) ∈ place.phis

theorem Closed.mono {phis phis' : List (String × Nat)} {w : Nat} (closed : Closed g df v phis w) (grows : phis ⊆ phis') :
    Closed g df v phis' w := by
  obtain ⟨frontiers, found, all⟩ := closed
  exact ⟨frontiers, found, fun d member block => grows (all d member block)⟩

theorem Placing.phi {old : List (String × Nat)} {place next : Placement} {d w : Nat} {frontiers : List Nat}
    (used : usage[v]?.isSome) (member : v ∈ globals) (placing : Placing g lens globals usage df v old (some w) place)
    (source : Assigning usage v w ∨ (v, w) ∈ place.phis) (frontier : df[w]? = some frontiers) (inside : d ∈ frontiers)
    (step : placePhi lens usage v place d = .returns next) :
    Placing g lens globals usage df v old (some w) next ∧ place.phis ⊆ next.phis ∧ (Block g d → (v, d) ∈ next.phis) := by
  have placed := placing.placed.phi used member step
  rcases placePhi_cases used placing.placed step with ⟨rfl, done⟩ | ⟨bb, found, new, rfl⟩
  · exact ⟨placing, List.Subset.refl _, done⟩
  · have block : Block g d := (placing.placed.block d).mp ⟨bb, found⟩
    refine ⟨⟨placed, ?_, ?_, ?_, ?_⟩, List.subset_cons_self _ _, fun _ => List.mem_cons_self⟩
    · intro x d' other
      rw [← placing.others x d' other]
      simp [other]
    · intro w' cause
      by_cases same : w' = d
      · subst w'
        exact .inl (by simp)
      · have cause : Assigning usage v w' ∨ (v, w') ∈ place.phis := by simpa [same] using cause
        rcases placing.closed w' cause with listed | closed | current
        · exact .inl (by simp [listed])
        · exact .inr (.inl (closed.mono (List.subset_cons_self _ _)))
        · exact .inr (.inr current)
    · intro d' listed
      rcases List.mem_cons.mp listed with same | listed
      · cases same
        rcases source with assigns | phi
        · exact .first assigns frontier inside block
        · exact .again (placing.caused w phi) frontier inside block
      · exact placing.caused d' listed
    · intro w' listed
      simp only [Std.ExtTreeSet.mem_insert, Nat.compare_eq_eq] at listed
      rcases listed with rfl | listed
      · exact .inr List.mem_cons_self
      · exact (placing.worklist w' listed).imp_right (List.mem_cons_of_mem _)

/-- All frontier blocks of `w`. -/
theorem Placing.frontier {old : List (String × Nat)} {place next : Placement} {w : Nat} {frontiers items : List Nat}
    (used : usage[v]?.isSome) (member : v ∈ globals) (placing : Placing g lens globals usage df v old (some w) place)
    (source : Assigning usage v w ∨ (v, w) ∈ place.phis) (frontier : df[w]? = some frontiers) (inside : items ⊆ frontiers)
    (folded : Outcome.fold (placePhi lens usage v) place items = .returns next) :
    Placing g lens globals usage df v old (some w) next ∧ place.phis ⊆ next.phis ∧
      ∀ d ∈ items, Block g d → (v, d) ∈ next.phis := by
  induction items generalizing place with
  | nil =>
    cases folded
    exact ⟨placing, List.Subset.refl _, by simp⟩
  | cons d items ih =>
    simp only [Outcome.fold, Outcome.bind_eq_returns] at folded
    obtain ⟨middle, step, rest⟩ := folded
    obtain ⟨placing, grows, done⟩ := placing.phi used member source frontier (inside List.mem_cons_self) step
    obtain ⟨final, grows', all⟩ := ih placing (source.imp_right fun phi => grows phi)
      (fun x listed => inside (List.mem_cons_of_mem _ listed)) rest
    exact ⟨final, List.Subset.trans grows grows', List.forall_mem_cons.mpr ⟨fun block => grows' (done block), all⟩⟩

theorem Placing.turn {old : List (String × Nat)} {place next : Placement} {turn : Nat}
    (member : v ∈ globals) (placing : Placing g lens globals usage df v old none place)
    (step : placeTurn orders lens usage df v turn place = .returns (some next)) :
    Placing g lens globals usage df v old none next := by
  unfold placeTurn at step
  split at step
  · cases step
  · next w rest listed =>
    split at step
    · cases step
    · next frontiers frontier =>
      simp only [Outcome.bind_eq_returns, Outcome.pure_eq, Outcome.returns.injEq, Option.some.injEq] at step
      obtain ⟨final, folded, rfl⟩ := step
      have pending : w ∈ place.worklist := by
        have first : w ∈ (orders.worklist v turn).list place.worklist.toList := by
          rw [listed]
          exact List.mem_cons_self
        simpa using first
      have used : usage[v]?.isSome := by
        rcases placing.worklist w pending with assigns | phi
        · exact assigns.used
        · obtain ⟨w', assigns⟩ := (placing.caused w phi).source
          exact assigns.used
      have taken : Placing g lens globals usage df v old (some w) { place with worklist := place.worklist.erase w } := by
        refine ⟨⟨placing.placed.only, placing.placed.labels, placing.placed.names⟩, placing.others, ?_, placing.caused, ?_⟩
        · intro w' cause
          by_cases same : w = w'
          · exact .inr (.inr (congrArg some same))
          · rcases placing.closed w' cause with pending | closed | current
            · exact .inl (by simp [pending, same])
            · exact .inr (.inl closed)
            · cases current
        · intro w' pending
          exact placing.worklist w' (Std.ExtTreeSet.mem_of_mem_erase pending)
      obtain ⟨after, -, all⟩ := taken.frontier used member (placing.worklist w pending) frontier (List.Subset.refl _) folded
      refine ⟨after.placed, after.others, ?_, after.caused, after.worklist⟩
      intro w' cause
      rcases after.closed w' cause with pending | closed | current
      · exact .inl pending
      · exact .inr (.inl closed)
      · cases current
        exact .inr (.inl ⟨frontiers, frontier, all⟩)

/-- What placing phi functions for one name amounts to. -/
structure Finished (g : ControlFlowGraph) (usage : Usage) (df : Panopticon.Dominator.Frontiers) (v : String)
    (phis : List (String × Nat)) : Prop where
  closed : ∀ w, Assigning usage v w ∨ (v, w) ∈ phis → Closed g df v phis w
  caused : ∀ d, (v, d) ∈ phis → Iterated g df (Assigning usage v) d

private theorem placeName_spec {place next : Placement} (member : v ∈ globals) (placed : Placed g lens globals place)
    (new : ∀ d, (v, d) ∉ place.phis) (step : placeName orders fuel lens usage df place v = .returns next) :
    Placed g lens globals next ∧ Finished g usage df v next.phis ∧
      ∀ x d, x ≠ v → ((x, d) ∈ next.phis ↔ (x, d) ∈ place.phis) := by
  have first : Placing g lens globals usage df v place.phis none { place with worklist := usage[v]?.getD ∅ } := by
    refine ⟨⟨placed.only, placed.labels, placed.names⟩, fun _ _ _ => Iff.rfl, ?_, ?_, fun _ pending => .inl pending⟩
    · exact fun w cause => .inl (cause.resolve_right (new w))
    · exact fun d listed => absurd listed (new d)
  obtain ⟨last, turn, stopped⟩ := Outcome.repeated_invariant (Placing g lens globals usage df v place.phis none)
    (fun _ _ _ placing step => placing.turn member step) first step
  have empty : ∀ w, w ∉ next.worklist := by
    intro w pending
    unfold placeTurn at stopped
    split at stopped
    · next none =>
      have listed : w ∈ (orders.worklist v turn).list next.worklist.toList := by simpa using pending
      rw [none] at listed
      cases listed
    · split at stopped
      · cases stopped
      · simp at stopped
  refine ⟨last.placed, ⟨fun w cause => ?_, last.caused⟩, last.others⟩
  rcases last.closed w cause with pending | closed | current
  · exact absurd pending (empty w)
  · exact closed
  · cases current

private theorem place_all {place final : Placement} {items : List String} (nodup : items.Nodup) (inside : items ⊆ globals)
    (placed : Placed g lens globals place) (new : ∀ x ∈ items, ∀ d, (x, d) ∉ place.phis)
    (folded : Outcome.fold (placeName orders fuel lens usage df) place items = .returns final) :
    Placed g lens globals final ∧ (∀ x ∈ items, Finished g usage df x final.phis) ∧
      ∀ x d, x ∉ items → ((x, d) ∈ final.phis ↔ (x, d) ∈ place.phis) := by
  induction items generalizing place with
  | nil =>
    cases folded
    exact ⟨placed, by simp, fun _ _ _ => Iff.rfl⟩
  | cons x items ih =>
    simp only [Outcome.fold, Outcome.bind_eq_returns] at folded
    obtain ⟨middle, step, rest⟩ := folded
    obtain ⟨absent, nodup⟩ := List.nodup_cons.mp nodup
    obtain ⟨placed, finished, others⟩ := placeName_spec (inside List.mem_cons_self) placed (new x (by simp)) step
    obtain ⟨last, all, untouched⟩ := ih nodup (fun y listed => inside (List.mem_cons_of_mem _ listed)) placed
      (fun y listed d phi => by
        have different : y ≠ x := fun same => absent (same ▸ listed)
        exact new y (by simp [listed]) d ((others y d different).mp phi)) rest
    refine ⟨last, List.forall_mem_cons.mpr ⟨?_, all⟩, ?_⟩
    · have same : ∀ d, (x, d) ∈ final.phis ↔ (x, d) ∈ middle.phis := fun d => untouched x d absent
      refine ⟨fun w cause => ?_, fun d phi => finished.caused d ((same d).mp phi)⟩
      obtain ⟨frontiers, frontier, closed⟩ := finished.closed w (cause.imp_right (same w).mp)
      exact ⟨frontiers, frontier, fun d member block => (same d).mpr (closed d member block)⟩
    · intro y d outside
      rw [List.mem_cons, not_or] at outside
      rw [untouched y d outside.2, others y d outside.1]

end Placement

/-- The mnemonics the pass puts in front of a block. -/
def pseudo (lens : Lengths) (arity : Nat) (phis : List String) (init : Option (List String)) (bb : BasicBlock) :
    List Mnemonic :=
  phis.map (phiMnemonic lens arity bb) ++ (init.map fun names => initMnemonic lens names bb).toList

def decorate (lens : Lengths) (arity : Nat) (phis : List String) (init : Option (List String)) :
    ControlFlowTarget → ControlFlowTarget
  | .resolved bb => .resolved { bb with mnemonics := pseudo lens arity phis init bb ++ bb.mnemonics }
  | lb => lb

/-- The graph after the pass, from the graph before it. -/
structure Inserted (g g' : ControlFlowGraph) (start : Nat) (lens : Lengths) (names : List String) (usage : Usage)
    (df : Panopticon.Dominator.Frontiers) (phis : List (String × Nat)) : Prop where
  only : OnlyLabels g g'
  entry : Block g start
  labels : ∀ v, g'.vertexLabel v =
    (g.vertexLabel v).map (decorate lens (arityAt g v) (namesAt phis v) (if v = start then some names else none))
  named : ∀ x d, (x, d) ∈ phis → x ∈ names
  finished : ∀ x ∈ names, Finished g usage df x phis

private theorem block_congr {g g' : ControlFlowGraph} (blocks : ∀ d, Block g' d ↔ Block g d)
    {df : Panopticon.Dominator.Frontiers} {usage : Usage} {v : String} {phis : List (String × Nat)}
    (finished : Finished g' usage df v phis) : Finished g usage df v phis := by
  constructor
  · intro w cause
    obtain ⟨frontiers, frontier, all⟩ := finished.closed w cause
    exact ⟨frontiers, frontier, fun d member block => all d member ((blocks d).mpr block)⟩
  · intro d phi
    have iterated := finished.caused d phi
    clear phi
    induction iterated with
    | first assigns frontier member block => exact .first assigns frontier member ((blocks _).mp block)
    | again _ frontier member block ih => exact .again ih frontier member ((blocks _).mp block)

private theorem nodup_names {names : Liveness.Names} : names.toList.Nodup :=
  Std.ExtTreeSet.distinct_toList.imp fun different => by simpa using different

theorem phiFunctions_inserted {orders : SsaOrders} {fuel : Nat} {f f' : Function}
    (inserted : phiFunctions orders fuel f = .returns f') :
    f' = { f with cflowGraph := f'.cflowGraph } ∧ ∃ lens globals usage idom df phis g,
      (globalNames f fuel : Outcome Failure _) = .returns (globals, usage) ∧ OnlyLabels f.cflowGraph g ∧
      (Panopticon.Dominator.immediateDominator g fuel f.entryPoint : Outcome Failure _) = .returns idom ∧
      idom.size = g.numVertices ∧
      (Panopticon.Dominator.dominanceFrontiers g orders.vertices fuel idom : Outcome Failure _) = .returns df ∧
      Inserted f.cflowGraph f'.cflowGraph f.entryPoint lens (orders.globals.list globals.toList) usage df phis := by
  cases checked : typeCheck orders f.cflowGraph with
  | error message => simp [phiFunctions, checked] at inserted
  | ok lens =>
    simp only [phiFunctions, checked, Outcome.bind_eq_returns] at inserted
    obtain ⟨⟨globals, usage⟩, names, cfg, init, idom, dominators, rest⟩ := inserted
    split at rest
    · cases rest
    · next size =>
      simp only [Outcome.bind_eq_returns, Outcome.pure_eq, Outcome.returns.injEq] at rest
      obtain ⟨df, frontiers, place, placed, rfl⟩ := rest
      obtain ⟨bb, entry, initial⟩ := insertInit_spec init
      have only : OnlyLabels f.cflowGraph cfg := initial ▸ .setVertexLabel _ (by simp [entry])
      have nodup : (orders.globals.list globals.toList).Nodup :=
        (orders.globals.perm _).nodup_iff.mpr nodup_names
      obtain ⟨final, finished, -⟩ := place_all nodup (List.Subset.refl _)
        (Placed.initial cfg lens (orders.globals.list globals.toList)) (by simp) placed
      have blocks : ∀ d, Block cfg d ↔ Block f.cflowGraph d := by
        intro d
        unfold Block
        rw [initial, vertexLabel_setVertexLabel]
        split
        · next same =>
          subst d
          simp [entry]
        · rfl
      refine ⟨rfl, lens, globals, usage, idom, df, place.phis, cfg, names, only, dominators, not_not.mp size, frontiers,
        only.trans final.only, ⟨bb, entry⟩, ?_, final.names, fun x member => block_congr blocks (finished x member)⟩
      intro v
      have arity : arityAt cfg v = arityAt f.cflowGraph v := by rw [arityAt, only.inEdges, arityAt]
      rw [final.labels v, arity, initial, vertexLabel_setVertexLabel]
      by_cases here : f.entryPoint = v
      · subst v
        simp [entry, prepend, decorate, pseudo, insertMnemonic, initMnemonic, phiMnemonic]
      · rw [if_neg here, if_neg (Ne.symm here)]
        congr 1
        funext lb
        cases lb <;> simp [prepend, decorate, pseudo]

section Result
variable {g g' : ControlFlowGraph} {start : Nat} {lens : Lengths} {names : List String} {usage : Usage}
  {df : Panopticon.Dominator.Frontiers} {phis : List (String × Nat)}

/-- The phi functions and initialisations put in front of the statements of a vertex. -/
def phiPart (g : ControlFlowGraph) (lens : Lengths) (phis : List (String × Nat)) (v : Nat) : List Statement :=
  (namesAt phis v).map fun x => phiStatement x (lengthIn lens x) (arityAt g v)

def initPart (lens : Lengths) (names : List String) (start v : Nat) : List Statement :=
  if v = start then names.map (initOf lens) else []

private theorem statements_pseudo (lens : Lengths) (arity : Nat) (phis : List String) (init : Option (List String))
    (bb : BasicBlock) :
    (pseudo lens arity phis init bb).flatMap Mnemonic.instructions =
      phis.map (fun x => phiStatement x (lengthIn lens x) arity) ++ (init.map fun names => names.map (initOf lens)).getD [] := by
  rw [pseudo, List.flatMap_append, List.flatMap_map]
  congr 1
  · simp only [phiMnemonic, pseudoMnemonic]
    induction phis with
    | nil => rfl
    | cons x phis ih => simp [ih]
  · cases init <;> simp [initMnemonic, pseudoMnemonic]

theorem Inserted.statements (inserted : Inserted g g' start lens names usage df phis) {v : Nat} (block : Block g v) :
    statementsAt g' v = phiPart g lens phis v ++ initPart lens names start v ++ statementsAt g v := by
  obtain ⟨bb, found⟩ := block
  have label := inserted.labels v
  rw [found, Option.map_some, decorate] at label
  simp only [statementsAt, label, found, Option.map_some, Option.getD_some, ControlFlowTarget.statements,
    BasicBlock.statements, List.flatMap_append, statements_pseudo, phiPart]
  by_cases here : v = start
  · simp [initPart, here]
  · simp [initPart, here]

theorem Inserted.statements_other (inserted : Inserted g g' start lens names usage df phis) {v : Nat}
    (other : ¬ Block g v) : statementsAt g' v = [] := by
  have label := inserted.labels v
  unfold statementsAt
  rw [label]
  cases found : g.vertexLabel v with
  | none => rfl
  | some lb =>
    cases lb with
    | resolved bb => exact absurd ⟨bb, found⟩ other
    | unresolved => rfl
    | failed => rfl

theorem statementsAt_block {v : Nat} {stmt : Statement} (member : stmt ∈ statementsAt g v) : Block g v := by
  unfold statementsAt at member
  cases found : g.vertexLabel v with
  | none => simp [found] at member
  | some lb =>
    cases lb with
    | resolved bb => exact ⟨bb, found⟩
    | unresolved => simp [found, ControlFlowTarget.statements] at member
    | failed => simp [found, ControlFlowTarget.statements] at member

theorem mem_initPart_start {x : String} (member : x ∈ names) : initOf lens x ∈ initPart lens names start start := by
  simp only [initPart, ite_true]
  exact List.mem_map_of_mem member

theorem initPart_plain {v : Nat} {stmt : Statement} (member : stmt ∈ initPart lens names start v) :
    stmt.op = .move .undefined := by
  unfold initPart at member
  split at member
  · obtain ⟨x, -, rfl⟩ := List.mem_map.mp member
    rfl
  · cases member

theorem Inserted.mem_start (inserted : Inserted g g' start lens names usage df phis) {x : String} (member : x ∈ names) :
    initOf lens x ∈ statementsAt g' start := by
  rw [inserted.statements inserted.entry]
  exact List.mem_append_left _ (List.mem_append_right _ (mem_initPart_start member))

theorem Inserted.prepared (inserted : Inserted g g' start lens names usage df phis) (valid : g.Consistent)
    (noPhi : ∀ v, ∀ stmt ∈ statementsAt g v, stmt.op.isPhi = false)
    (unreserved : ∀ v bb, g.vertexLabel v = some (.resolved bb) → ∀ mne ∈ bb.mnemonics, mne.opcode ≠ "__phi") :
    Prepared g' start := by
  refine ⟨inserted.only.consistent valid, ?_, ?_⟩
  · intro v bb' label'
    have label := inserted.labels v
    rw [label'] at label
    cases found : g.vertexLabel v with
    | none => simp [found] at label
    | some lb =>
      rw [found] at label
      cases lb with
      | unresolved => simp [decorate] at label
      | failed => simp [decorate] at label
      | resolved bb =>
        simp only [Option.map_some, decorate, Option.some.injEq, ControlFlowTarget.resolved.injEq] at label
        subst bb'
        refine ⟨(namesAt phis v).length, ?_, ?_⟩
        · intro mne member
          rw [pseudo, List.append_assoc, List.take_left' (by simp)] at member
          obtain ⟨x, -, rfl⟩ := List.mem_map.mp member
          exact ⟨rfl, by simp [phiMnemonic, pseudoMnemonic, phiStatement, Operation.isPhi]⟩
        · intro mne member
          rw [pseudo, List.append_assoc, List.drop_left' (by simp)] at member
          rcases List.mem_append.mp member with init | body
          · simp only [Option.mem_toList, Option.map_eq_some_iff] at init
            obtain ⟨list, -, rfl⟩ := init
            refine ⟨by simp [initMnemonic, pseudoMnemonic], ?_⟩
            intro stmt inside
            obtain ⟨x, -, rfl⟩ := List.mem_map.mp inside
            rfl
          · refine ⟨unreserved v bb found mne body, fun stmt inside => noPhi v stmt ?_⟩
            simp only [statementsAt, found, Option.map_some, Option.getD_some, ControlFlowTarget.statements]
            exact List.mem_flatMap.mpr ⟨mne, body, inside⟩
  · intro v stmt ops into member phi list
    have block : Block g v := by
      by_contra other
      rw [inserted.statements_other other] at member
      cases member
    rw [inserted.statements block] at member
    rcases List.mem_append.mp member with front | body
    · rcases List.mem_append.mp front with phis | init
      · obtain ⟨x, name, rfl⟩ := List.mem_map.mp phis
        refine ⟨x, lengthIn lens x, ?_, initOf lens x, inserted.mem_start (inserted.named x v (mem_namesAt.mp name)), _, rfl⟩
        rw [inserted.only.inEdges] at list
        rw [arityAt, list, Option.getD_some]
      · rw [initPart_plain init] at phi
        cases phi
    · have plain := noPhi v stmt body
      rw [phi] at plain
      cases plain

end Result

end Panopticon.Proofs.PhiPlacement
