import Panopticon.Proofs.DominatorTotal
import Panopticon.Proofs.Frontier
import Panopticon.Proofs.SsaFailure

/-! The frontiers of a graph that is reachable from its start: they are computed for every graph, and are the dominance
frontiers where every loop is entered from outside. -/

namespace Panopticon.Proofs.FrontierTotal
open Library Panopticon.Dominator Proofs.Dominator Proofs.Frontier AdjacencyList

variable {N E ε : Type} {g : AdjacencyList N E} {start : Nat}

private theorem size_of_keys {idom : DominatorTable} (keys : ∀ v, idom.contains v ↔ (g.vertexLabel v).isSome) :
    idom.size = g.numVertices := by
  have perm : idom.keys.Perm g.vertexLabels.keys := by
    rw [List.perm_ext_iff_of_nodup Std.ExtTreeMap.nodup_keys Std.ExtTreeMap.nodup_keys]
    intro v
    simpa [vertexLabel] using keys v
  simpa [numVertices] using perm.length_eq

def Connected (g : AdjacencyList N E) (start : Nat) : Prop := ∀ v, (g.vertexLabel v).isSome → Reachable g.Adjacent start v

theorem tree_of_connected (valid : g.Consistent) (entry : (g.vertexLabel start).isSome) (connected : Connected g start)
    {fuel : Nat} {idom : DominatorTable} (finished : (immediateDominator g fuel start : Outcome ε _) = .returns idom) :
    DominatorTree g start idom := by
  apply immediateDominator_tree valid entry finished
  apply size_of_keys
  intro v
  rw [(DominatorTotal.exact_of_returns valid finished).keys]
  exact ⟨labelled_of_reachable valid entry, connected v⟩

section Returns
variable {idom : DominatorTable} (valid : g.Consistent) (tree : DominatorTree g start idom)

include valid tree in
private theorem length_lineage (entry : (g.vertexLabel start).isSome) {v : Nat} {line : List Nat} (labelled : (g.vertexLabel v).isSome)
    (lineage : Lineage start (idom[·]?) v line) : line.length ≤ g.numVertices := by
  apply length_le_numVertices lineage.nodup
  intro a member
  have reachable := tree.reachable v ((tree.keys v).mpr labelled)
  exact labelled_of_reachable valid entry (reachable.of_dominates (tree.dominates lineage member))

private theorem run_returns {b dom p fuel : Nat} {line : List Nat} (found : idom[b]? = some dom)
    (current : Lineage start (idom[·]?) p line) (ahead : dom ∈ line) (enough : line.length < fuel) (ret : Frontiers) :
    ∃ last, (Outcome.repeated (fun _ => runFrontier idom b) fuel 0 (p, ret) : Outcome ε _) = .returns last := by
  have ran := Outcome.repeated_returns (ε := ε) (fun _ => runFrontier idom b) line.length
    (fun turn state => ∃ rest, Lineage start (idom[·]?) state.1 rest ∧ dom ∈ rest ∧ rest.length + turn = line.length)
    ?_ fuel (p, ret) ⟨line, current, ahead, rfl⟩ (Nat.zero_le _) enough
  · obtain ⟨last, finished, -⟩ := ran
    exact ⟨last, finished⟩
  · rintro turn state ⟨rest, here, later, count⟩
    by_cases stop : state.1 = dom
    · exact .inl (by simp [runFrontier, found, stop])
    · obtain ⟨runner, table⟩ := state
      cases here with
      | root => exact absurd (List.mem_singleton.mp later).symm stop
      | @child _ d ancestors inner entry here =>
        have entry : idom[runner]? = some d := entry
        refine .inr ⟨(d, push table runner b), ?_, ⟨ancestors, here, ?_, ?_⟩, ?_⟩
        · simp [runFrontier, found, stop, entry]
        · exact (List.mem_cons.mp later).resolve_left (Ne.symm stop)
        · rw [List.length_cons] at count
          omega
        · rw [List.length_cons] at count
          omega

include valid tree in
private theorem frontierBlock_returns (entry : (g.vertexLabel start).isSome) {b fuel : Nat} (labelled : (g.vertexLabel b).isSome)
    (enough : g.numVertices < fuel) (ret : Frontiers) :
    ∃ next, (frontierBlock g fuel idom ret b : Outcome ε _) = .returns next := by
  obtain ⟨pred, listed⟩ := DominatorTotal.predecessors_returns (ε := ε) valid labelled
  obtain ⟨dom, found⟩ := Option.isSome_iff_exists.mp (show (idom[b]?).isSome by simpa using (tree.keys b).mpr labelled)
  obtain ⟨above, -, ahead, -⟩ := stop tree labelled found
  simp only [frontierBlock, listed, Outcome.returns_bind]
  split_ifs with several
  · apply Exists.imp fun _ found => And.left found
    apply Outcome.fold_returns (fun rest _ => rest ⊆ pred) ?_ pred ret (List.Subset.refl pred)
    · intro p rest ret inside
      obtain ⟨e, stored⟩ := ((mem_predecessors valid listed).mp (inside List.mem_cons_self)).1
      have known := (valid.ends e p b stored).1
      obtain ⟨line, current⟩ := tree.lineage known
      obtain ⟨last, ran⟩ := run_returns (ε := ε) found current (ahead p line ⟨e, stored⟩ current)
        ((length_lineage valid tree entry known current).trans_lt enough) ret
      exact ⟨last.2, by simp [ran], fun q member => inside (List.mem_cons_of_mem p member)⟩
  · exact ⟨ret, rfl⟩

include valid tree in
private theorem dominanceFrontiers_returns (entry : (g.vertexLabel start).isSome) (vertices : Enumeration Nat) {fuel : Nat}
    (enough : g.numVertices < fuel) : ∃ df, (dominanceFrontiers g vertices fuel idom : Outcome ε _) = .returns df := by
  have ran := Outcome.fold_returns (ε := ε) (f := frontierBlock g fuel idom) (fun rest _ => rest ⊆ g.vertices vertices) ?_
    (g.vertices vertices) ((g.vertices vertices).foldl (fun ret v => ret.insert v []) ∅) (List.Subset.refl _)
  · obtain ⟨ret, folded, -⟩ := ran
    exact ⟨_, by simp only [dominanceFrontiers, folded, Outcome.returns_bind]; rfl⟩
  · intro b rest ret inside
    have labelled : (g.vertexLabel b).isSome := by simpa [AdjacencyList.vertices, vertexLabel] using inside List.mem_cons_self
    obtain ⟨next, step⟩ := frontierBlock_returns (ε := ε) valid tree entry labelled enough ret
    exact ⟨next, step, fun c member => inside (List.mem_cons_of_mem b member)⟩

end Returns

private theorem sorted_sortDedup (values : List Nat) : (sortDedup values).Pairwise (· < ·) := by
  have sorted : (sortDedup values).Pairwise (· ≤ ·) := (List.pairwise_insertionSort _ values).sublist (List.dedup_sublist _)
  exact (sorted.and (List.nodup_dedup _)).imp fun both => Nat.lt_of_le_of_ne both.1 both.2

/-- The vertex dominates a predecessor, but does not strictly dominate the block. -/
def OnFrontier (g : AdjacencyList N E) (start n w : Nat) : Prop :=
  (∃ p, g.Adjacent p w ∧ Dominates g.Adjacent start n p) ∧ ¬StrictlyDominates g.Adjacent start n w

/-- All frontiers are there, in order and without duplicates. -/
def RightFrontiers (g : AdjacencyList N E) (start : Nat) (df : Frontiers) : Prop :=
  ∀ n, (g.vertexLabel n).isSome → ∃ list, df[n]? = some list ∧ list.Pairwise (· < ·) ∧
    ∀ w, (g.vertexLabel w).isSome → (w ∈ list ↔ OnFrontier g start n w)

/-- Nothing leads back to the start, and a block that leads to itself dominates another of its predecessors. -/
def LoopsEntered (g : AdjacencyList N E) (start : Nat) : Prop :=
  (∀ p, ¬g.Adjacent p start) ∧ ∀ v, g.Adjacent v v → ∃ p, p ≠ v ∧ g.Adjacent p v ∧ Dominates g.Adjacent start v p

private theorem inFrontier_onFrontier {n w : Nat} (inside : InFrontier g start n w) : OnFrontier g start n w := by
  obtain ⟨p, -, edge, dominates⟩ := inside.below
  exact ⟨⟨p, edge, dominates⟩, inside.outside⟩

theorem exists_entry {w : Nat} {walk : List Nat} (trace : Trace g.Adjacent start w walk) (inner : w ≠ start) :
    ∃ p before, p ≠ w ∧ g.Adjacent p w ∧ Trace g.Adjacent start p before ∧ before <:+ walk := by
  induction length : walk.length using Nat.strongRecOn generalizing walk with
  | ind length ih =>
    cases trace with
    | root => exact absurd rfl inner
    | @step u _ walk trace link =>
      by_cases again : w ∈ walk
      · obtain ⟨earlier, shorter, suffix⟩ := trace.upto again
        have less := suffix.length_le
        obtain ⟨p, before, other, edge, found, part⟩ := ih earlier.length (by simp at length; omega) shorter rfl
        exact ⟨p, before, other, edge, found, part.trans (suffix.trans (List.suffix_cons w walk))⟩
      · refine ⟨u, walk, ?_, link, trace, List.suffix_cons w walk⟩
        rintro rfl
        exact again trace.mem

/-- With a single predecessor besides itself, a block is dominated by what dominates that one. -/
theorem dominates_of_single {n q w : Nat} (inner : w ≠ start) (single : ∀ p, p ≠ w → g.Adjacent p w → p = q)
    (dominates : Dominates g.Adjacent start n q) : Dominates g.Adjacent start n w := by
  intro walk trace
  obtain ⟨p, before, other, edge, found, suffix⟩ := exists_entry trace inner
  obtain rfl := single p other edge
  exact suffix.subset (dominates before found)

private theorem not_dominates_single {q w : Nat} (reachable : Reachable g.Adjacent start w) (inner : w ≠ start)
    (single : ∀ p, p ≠ w → g.Adjacent p w → p = q) : ¬Dominates g.Adjacent start w q := by
  intro dominates
  obtain ⟨walk, trace⟩ := reachable
  obtain ⟨p, before, other, edge, found, -⟩ := exists_entry trace inner
  obtain rfl := single p other edge
  have up : Dominates g.Adjacent start p w := dominates_of_single inner single (.refl p)
  exact other (up.antisymm ⟨before, found⟩ dominates)

/-- Where loops are entered from outside, a second predecessor is never missing. -/
theorem onFrontier_inFrontier (entered : LoopsEntered g start) {n w : Nat} (reachable : Reachable g.Adjacent start w)
    (frontier : OnFrontier g start n w) : InFrontier g start n w := by
  obtain ⟨⟨p, edge, dominates⟩, outside⟩ := frontier
  have inner : w ≠ start := by
    rintro rfl
    exact entered.1 p edge
  -- a predecessor other than the block itself that is dominated too
  obtain ⟨q, other, edgeQ, below⟩ : ∃ q, q ≠ w ∧ g.Adjacent q w ∧ Dominates g.Adjacent start n q := by
    by_cases loop : p = w
    · subst p
      have same : n = w := not_not.mp fun different => outside ⟨dominates, different⟩
      subst n
      exact entered.2 w edge
    · exact ⟨p, loop, edge, dominates⟩
  refine ⟨?_, ⟨q, other, edgeQ, below⟩, outside, fun same => absurd same inner⟩
  by_contra missing
  have single : ∀ p, p ≠ w → g.Adjacent p w → p = q := by
    intro p notW edgeP
    by_contra different
    exact missing ⟨p, q, different, notW, other, edgeP, edgeQ⟩
  by_cases same : n = w
  · subst n
    exact not_dominates_single reachable inner single below
  · exact outside ⟨dominates_of_single inner single below, same⟩

private theorem getElem_dominanceFrontiers {vertices : Enumeration Nat} {fuel : Nat} {idom : DominatorTable} {df : Frontiers}
    (computed : (dominanceFrontiers g vertices fuel idom : Outcome ε _) = .returns df) {n : Nat} {list : List Nat}
    (found : df[n]? = some list) : list.Pairwise (· < ·) := by
  simp only [dominanceFrontiers, Outcome.bind_eq_returns, Outcome.pure_eq, Outcome.returns.injEq] at computed
  obtain ⟨ret, -, rfl⟩ := computed
  obtain ⟨blocks, -, rfl⟩ : ∃ blocks, ret[n]? = some blocks ∧ sortDedup blocks = list := by simpa using found
  exact sorted_sortDedup blocks

theorem rightFrontiers_iff (valid : g.Consistent) (connected : Connected g start) (entry : (g.vertexLabel start).isSome)
    {vertices : Enumeration Nat} {fuel : Nat} {idom : DominatorTable} {df : Frontiers} (tree : DominatorTree g start idom)
    (computed : (dominanceFrontiers g vertices fuel idom : Outcome ε _) = .returns df) :
    RightFrontiers g start df ↔ LoopsEntered g start := by
  have exact := dominanceFrontiers_exact valid tree computed
  constructor
  · intro right
    have inside : ∀ w, (g.vertexLabel w).isSome → OnFrontier g start w w → InFrontier g start w w := by
      intro w labelled frontier
      obtain ⟨list, found, -, members⟩ := right w labelled
      exact ((exact w w).mp ⟨list, found, (members w labelled).mpr frontier⟩).2
    have none : ∀ p, ¬g.Adjacent p start := by
      intro p edge
      have back : OnFrontier g start start start :=
        ⟨⟨p, edge, start_dominates p⟩, fun strict => strict.2 rfl⟩
      exact (inside start entry back).inner rfl rfl
    refine ⟨none, fun v loop => ?_⟩
    obtain ⟨e, stored⟩ := loop
    exact (inside v (valid.ends e v v stored).1 ⟨⟨v, ⟨e, stored⟩, .refl v⟩, fun strict => strict.2 rfl⟩).below
  · intro entered n labelled
    obtain ⟨list, found⟩ := Option.isSome_iff_exists.mp (SsaFailure.dominanceFrontiers_keys computed labelled)
    refine ⟨list, found, getElem_dominanceFrontiers computed found, fun w known => ?_⟩
    have member := exact n w
    simp only [found, Option.some.injEq, exists_eq_left'] at member
    rw [member]
    exact ⟨fun inside => inFrontier_onFrontier inside.2, fun frontier =>
      ⟨known, onFrontier_inFrontier entered (connected w known) frontier⟩⟩

theorem exists_frontiers (valid : g.Consistent) (entry : (g.vertexLabel start).isSome) (connected : Connected g start)
    (vertices : Enumeration Nat) : ∃ enough, ∀ fuel, enough ≤ fuel →
      ∃ idom df, (immediateDominator g fuel start : Outcome ε _) = .returns idom ∧
        (dominanceFrontiers g vertices fuel idom : Outcome ε _) = .returns df ∧ DominatorTree g start idom := by
  obtain ⟨enough, returns⟩ := DominatorTotal.immediateDominator_returns (ε := ε) valid entry
  refine ⟨max enough (g.numVertices + 1), fun fuel large => ?_⟩
  obtain ⟨idom, finished⟩ := returns fuel (by omega)
  have tree := tree_of_connected valid entry connected finished
  have fuelled : g.numVertices < fuel := by omega
  obtain ⟨df, computed⟩ := dominanceFrontiers_returns (ε := ε) valid tree entry vertices fuelled
  exact ⟨idom, df, finished, computed, tree⟩

/-- The frontiers are right exactly when all loops are entered from outside. -/
theorem dominanceFrontiers_iff (valid : g.Consistent) (entry : (g.vertexLabel start).isSome) (connected : Connected g start)
    (vertices : Enumeration Nat) : ∃ enough, ∀ fuel, enough ≤ fuel →
      ∃ idom df, (immediateDominator g fuel start : Outcome ε _) = .returns idom ∧
        (dominanceFrontiers g vertices fuel idom : Outcome ε _) = .returns df ∧
        (RightFrontiers g start df ↔ LoopsEntered g start) := by
  obtain ⟨enough, returns⟩ := exists_frontiers (ε := ε) valid entry connected vertices
  refine ⟨enough, fun fuel large => ?_⟩
  obtain ⟨idom, df, finished, computed, tree⟩ := returns fuel large
  exact ⟨idom, df, finished, computed, rightFrontiers_iff valid connected entry tree computed⟩

/-- Two blocks, with an edge back to the first one or from the second one to itself. -/
def twoBlocks (v : Nat) : AdjacencyList Unit Unit := .ofLists [(), ()] [((), 0, 1), ((), 1, v)]

theorem connected_twoBlocks {v : Nat} (keys : (twoBlocks v).vertexLabels.keys = [0, 1])
    (edge : (twoBlocks v).edges[0]? = some (0, 1)) : Connected (twoBlocks v) 0 := by
  intro u labelled
  have member : u ∈ (twoBlocks v).vertexLabels.keys := by simpa [vertexLabel] using labelled
  rw [keys] at member
  rcases List.mem_pair.mp member with rfl | rfl
  · exact ⟨_, .root⟩
  · exact ⟨_, .step .root ⟨0, edge⟩⟩

/-- The block that the second edge leads to is missing from its own frontier. -/
theorem twoBlocks_wrong :
    (∃ fuel idom df, (immediateDominator (twoBlocks 0) fuel 0 : Outcome Empty _) = .returns idom ∧
      (dominanceFrontiers (twoBlocks 0) .canonical fuel idom : Outcome Empty _) = .returns df ∧
      ¬RightFrontiers (twoBlocks 0) 0 df) ∧
    ∃ fuel idom df, (immediateDominator (twoBlocks 1) fuel 0 : Outcome Empty _) = .returns idom ∧
      (dominanceFrontiers (twoBlocks 1) .canonical fuel idom : Outcome Empty _) = .returns df ∧
      ¬RightFrontiers (twoBlocks 1) 0 df := by
  have valid (v : Nat) : (twoBlocks v).Consistent := .ofLists _ _
  constructor
  · have connected : Connected (twoBlocks 0) 0 := connected_twoBlocks (by decide) (by decide)
    have entry : ((twoBlocks 0).vertexLabel 0).isSome := by decide
    obtain ⟨enough, returns⟩ := exists_frontiers (ε := Empty) (valid 0) entry connected .canonical
    obtain ⟨idom, df, finished, computed, tree⟩ := returns enough (Nat.le_refl enough)
    refine ⟨enough, idom, df, finished, computed, ?_⟩
    rw [rightFrontiers_iff (valid 0) connected entry tree computed]
    exact fun entered => entered.1 1 ⟨1, by decide⟩
  · have connected : Connected (twoBlocks 1) 0 := connected_twoBlocks (by decide) (by decide)
    have entry : ((twoBlocks 1).vertexLabel 0).isSome := by decide
    obtain ⟨enough, returns⟩ := exists_frontiers (ε := Empty) (valid 1) entry connected .canonical
    obtain ⟨idom, df, finished, computed, tree⟩ := returns enough (Nat.le_refl enough)
    refine ⟨enough, idom, df, finished, computed, ?_⟩
    rw [rightFrontiers_iff (valid 1) connected entry tree computed]
    intro entered
    -- only the start leads to the second block from outside, and it is not dominated by it
    obtain ⟨p, other, edge, dominates⟩ := entered.2 1 ⟨1, by decide⟩
    have first : p = 0 := by
      obtain ⟨e, stored⟩ := edge
      have known := (valid 1).ends e p 1 stored
      have member : p ∈ (twoBlocks 1).vertexLabels.keys := by simpa [vertexLabel] using known.1
      rw [show (twoBlocks 1).vertexLabels.keys = [0, 1] by decide] at member
      exact (List.mem_pair.mp member).resolve_right other
    subst p
    exact absurd (dominates_start dominates) (by decide)

/-- Two ways from the first block to the last one. -/
def diamond : AdjacencyList Unit Unit := .ofLists [(), (), (), ()] [((), 0, 1), ((), 0, 2), ((), 1, 3), ((), 2, 3)]

theorem diamond_adjacent {u v : Nat} (edge : diamond.Adjacent u v) : (u, v) ∈ [(0, 1), (0, 2), (1, 3), (2, 3)] := by
  obtain ⟨e, stored⟩ := edge
  have lists : diamond.Lists [(), (), (), ()] [((), 0, 1), ((), 0, 2), ((), 1, 3), ((), 2, 3)] := .ofLists (by decide)
  rw [lists.ends, Option.map_eq_some_iff] at stored
  obtain ⟨arc, found, ends⟩ := stored
  exact ends ▸ List.mem_map_of_mem (f := Prod.snd) (List.mem_of_getElem? found)

private theorem connected_diamond : Connected diamond 0 := by
  intro u labelled
  have member : u ∈ diamond.vertexLabels.keys := by simpa [vertexLabel] using labelled
  rw [show diamond.vertexLabels.keys = [0, 1, 2, 3] by decide] at member
  have first : diamond.Adjacent 0 1 := ⟨0, by decide⟩
  simp only [List.mem_cons, List.not_mem_nil, or_false] at member
  rcases member with rfl | rfl | rfl | rfl
  · exact ⟨_, .root⟩
  · exact ⟨_, .step .root first⟩
  · exact ⟨_, .step .root ⟨1, by decide⟩⟩
  · exact ⟨_, .step (.step .root first) ⟨2, by decide⟩⟩

/-- The lists of the loop are wrong, those of the diamond are right. -/
theorem twoBlocks_frontiers : (∃ enough, ∀ fuel, enough ≤ fuel →
    ∃ idom df, (immediateDominator (twoBlocks 1) fuel 0 : Outcome Empty _) = .returns idom ∧
      (dominanceFrontiers (twoBlocks 1) .canonical fuel idom : Outcome Empty _) = .returns df ∧
      (RightFrontiers (twoBlocks 1) 0 df ↔ LoopsEntered (twoBlocks 1) 0)) ∧
    ∃ enough, ∀ fuel, enough ≤ fuel → ∃ idom df, (immediateDominator diamond fuel 0 : Outcome Empty _) = .returns idom ∧
      (dominanceFrontiers diamond .canonical fuel idom : Outcome Empty _) = .returns df ∧ RightFrontiers diamond 0 df := by
  refine ⟨dominanceFrontiers_iff (.ofLists _ _) (by decide) (connected_twoBlocks (by decide) (by decide)) .canonical, ?_⟩
  obtain ⟨enough, returns⟩ := dominanceFrontiers_iff (ε := Empty) (.ofLists _ _) (by decide) connected_diamond .canonical
  refine ⟨enough, fun fuel large => ?_⟩
  obtain ⟨idom, df, finished, computed, right⟩ := returns fuel large
  refine ⟨idom, df, finished, computed, right.mpr ⟨?_, ?_⟩⟩
  · intro p edge
    have listed := diamond_adjacent edge
    simp at listed
  · intro v edge
    have listed := diamond_adjacent edge
    simp only [List.mem_cons, Prod.mk.injEq, List.not_mem_nil, or_false] at listed
    omega

end Panopticon.Proofs.FrontierTotal
