import Panopticon.Proofs.Dominator

/-! The computed frontiers, in terms of dominance. -/

namespace Panopticon.Proofs.Frontier
open Library Panopticon.Dominator Proofs.Dominator AdjacencyList

variable {N E ε : Type} {g : AdjacencyList N E} {start : Nat}

/-- `b` is in the frontier of `w` as the pass sees it: edges from `b` to itself do not count, there
must be two predecessors, and nothing is above the start. -/
structure InFrontier (g : AdjacencyList N E) (start w b : Nat) : Prop where
  two : ∃ p q, p ≠ q ∧ p ≠ b ∧ q ≠ b ∧ g.Adjacent p b ∧ g.Adjacent q b
  below : ∃ p, p ≠ b ∧ g.Adjacent p b ∧ Dominates g.Adjacent start w p
  outside : ¬ StrictlyDominates g.Adjacent start w b
  inner : b = start → w ≠ start

section Runner
variable {idom : DominatorTable} {fuel b p dom : Nat} {ret final : Frontiers}

/-- The runner has gone up from `p`, and `b` has been noted for the vertices it has left behind. -/
structure Ran (idom : DominatorTable) (start b dom : Nat) (line above : List Nat) (ret : Frontiers)
    (state : Nat × Frontiers) : Prop where
  split : ∃ behind rest, line = behind ++ rest ∧ Lineage start (idom[·]?) state.1 rest ∧ dom ∈ rest ∧
    (∀ w ∈ behind, w ∉ above) ∧
    ∀ w d, d ∈ valuesAt state.2 w ↔ d ∈ valuesAt ret w ∨ (d = b ∧ w ∈ behind)

theorem Ran.step {line above : List Nat} {state next : Nat × Frontiers} (found : idom[b]? = some dom)
    (lineage : Lineage start (idom[·]?) dom above) (ran : Ran idom start b dom line above ret state)
    (moved : (runFrontier idom b state : Outcome ε _) = .returns (some next)) : Ran idom start b dom line above ret next := by
  simp only [runFrontier, Outcome.bind_eq_returns, Outcome.unwrap_eq_returns, found, Option.some.injEq,
    exists_eq_left'] at moved
  split at moved
  · cases moved
  next other =>
    simp only [Outcome.bind_eq_returns, Outcome.unwrap_eq_returns, Outcome.pure_eq, Outcome.returns.injEq,
      Option.some.injEq] at moved
    obtain ⟨up, parent, rfl⟩ := moved
    obtain ⟨behind, rest, whole, current, ahead, apart, noted⟩ := ran.split
    obtain ⟨runner, table⟩ := state
    cases current with
    | root => exact absurd (List.mem_singleton.mp ahead).symm other
    | @child _ d ancestors inner entry current =>
      rw [parent] at entry
      cases entry
      have later : dom ∈ ancestors := (List.mem_cons.mp ahead).resolve_left (Ne.symm other)
      obtain ⟨above', lineage', suffix⟩ := current.upto later
      rw [lineage'.unique lineage] at suffix
      refine ⟨behind ++ [runner], ancestors, by simp [whole], current, later, ?_, ?_⟩
      · intro w member inside
        rcases List.mem_append.mp member with member | member
        · exact apart w member inside
        · rw [List.mem_singleton.mp member] at inside
          exact current.notMem_parent inner parent (suffix.subset inside)
      · intro w d
        rw [valuesAt_push, List.mem_append, noted, List.mem_append, List.mem_singleton]
        by_cases same : runner = w
        · simp only [same, ite_true, List.mem_singleton]
          tauto
        · simp only [same, ite_false, List.not_mem_nil, or_false, Ne.symm same]

/-- Running from `p` notes `b` for the ancestors of `p` below the dominator of `b`. -/
theorem run_exact {line above : List Nat} {turn : Nat} {last : Nat × Frontiers} (found : idom[b]? = some dom)
    (lineage : Lineage start (idom[·]?) dom above) (current : Lineage start (idom[·]?) p line) (ahead : dom ∈ line)
    (ran : Outcome.repeated (fun _ => runFrontier idom b) fuel turn (p, ret) = (.returns last : Outcome ε _)) (w d : Nat) :
    d ∈ valuesAt last.2 w ↔ d ∈ valuesAt ret w ∨ (d = b ∧ w ∈ line ∧ w ∉ above) := by
  have first : Ran idom start b dom line above ret (p, ret) := ⟨[], line, rfl, current, ahead, by simp, by simp⟩
  obtain ⟨⟨behind, rest, whole, here, -, apart, noted⟩, turn, stopped⟩ :=
    Outcome.repeated_invariant (Ran idom start b dom line above ret) (fun _ _ _ ran => ran.step found lineage) first ran
  have met : last.1 = dom := by
    by_contra other
    simp [runFrontier, found, other] at stopped
  have same := here.unique (met ▸ lineage)
  subst rest
  rw [noted, whole, List.mem_append]
  constructor
  · intro member
    rcases member with old | ⟨rfl, member⟩
    · exact .inl old
    · exact .inr ⟨rfl, .inl member, apart w member⟩
  · intro member
    rcases member with old | ⟨rfl, member | member, outside⟩
    · exact .inl old
    · exact .inr ⟨rfl, member⟩
    · exact absurd member outside

end Runner

section Exact
variable {idom : DominatorTable} {fuel : Nat} (valid : g.Consistent) (tree : DominatorTree g start idom)
include tree

/-- Where runners for `b` stop. -/
theorem stop {b dom : Nat} (labelled : (g.vertexLabel b).isSome) (found : idom[b]? = some dom) :
    ∃ above, Lineage start (idom[·]?) dom above ∧
      (∀ p line, g.Adjacent p b → Lineage start (idom[·]?) p line → dom ∈ line) ∧
      ∀ w, w ∉ above ↔ ¬ StrictlyDominates g.Adjacent start w b ∧ (b = start → w ≠ start) := by
  by_cases top : b = start
  · subst b
    rw [tree.root] at found
    cases found
    refine ⟨_, .root, fun p line _ current => current.start_mem, ?_⟩
    intro w
    have none_above : ¬ StrictlyDominates g.Adjacent start w start := fun strict => strict.2 (dominates_start strict.1)
    simp [none_above]
  · obtain ⟨above, lineage, -, strict⟩ := tree.parent labelled top found
    refine ⟨above, lineage, ?_, fun w => by simp [strict, top]⟩
    intro p line edge current
    exact (tree.mem_lineage_iff current).mpr (((strict dom).mp lineage.mem).pred edge)

include valid

private theorem runners_exact {b dom : Nat} {above pred : List Nat} (found : idom[b]? = some dom)
    (lineage : Lineage start (idom[·]?) dom above)
    (ahead : ∀ p line, g.Adjacent p b → Lineage start (idom[·]?) p line → dom ∈ line)
    (edges : ∀ p ∈ pred, g.Adjacent p b) {ret next : Frontiers}
    (folded : Outcome.fold (fun ret p => do
      let (_, ret) ← Outcome.repeated (fun _ => runFrontier idom b) fuel 0 (p, ret)
      return ret) ret pred = (.returns next : Outcome ε _)) (w d : Nat) :
    d ∈ valuesAt next w ↔
      d ∈ valuesAt ret w ∨ (d = b ∧ w ∉ above ∧ ∃ p ∈ pred, Dominates g.Adjacent start w p) := by
  induction pred generalizing ret with
  | nil =>
    simp only [Outcome.fold, Outcome.returns.injEq] at folded
    simp [folded]
  | cons p pred ih =>
    simp only [Outcome.fold, Outcome.bind_eq_returns, Outcome.pure_eq, Outcome.returns.injEq] at folded
    obtain ⟨middle, ⟨last, ran, rfl⟩, rest⟩ := folded
    have edge := edges p List.mem_cons_self
    obtain ⟨e, stored⟩ := edge
    obtain ⟨line, current⟩ := tree.lineage (valid.ends e p b stored).1
    rw [ih (fun q member => edges q (List.mem_cons_of_mem _ member)) rest,
      run_exact found lineage current (ahead p line ⟨e, stored⟩ current) ran, tree.mem_lineage_iff current]
    simp only [List.mem_cons, exists_eq_or_imp]
    tauto

private theorem frontierBlock_exact {b : Nat} {ret next : Frontiers} (labelled : (g.vertexLabel b).isSome)
    (step : (frontierBlock g fuel idom ret b : Outcome ε _) = .returns next) (w d : Nat) :
    d ∈ valuesAt next w ↔ d ∈ valuesAt ret w ∨ (d = b ∧ InFrontier g start w b) := by
  simp only [frontierBlock, Outcome.bind_eq_returns] at step
  obtain ⟨pred, listed, step⟩ := step
  have members : ∀ p, p ∈ pred ↔ g.Adjacent p b ∧ p ≠ b := fun _ => mem_predecessors valid listed
  have distinct := nodup_predecessors listed
  obtain ⟨dom, found⟩ := Option.isSome_iff_exists.mp
    (show (idom[b]?).isSome by simpa using (tree.keys b).mpr labelled)
  obtain ⟨above, lineage, ahead, outside⟩ := stop tree labelled found
  split at step
  · next several =>
    rw [runners_exact valid tree found lineage ahead (fun p member => ((members p).mp member).1) step]
    apply or_congr_right
    apply and_congr_right
    intro same
    rw [outside]
    constructor
    · intro holds
      obtain ⟨⟨apart, inner⟩, p, member, dominates⟩ := holds
      obtain ⟨edge, other⟩ := (members p).mp member
      refine ⟨?_, ⟨p, other, edge, dominates⟩, apart, inner⟩
      rcases pred with _ | ⟨first, _ | ⟨second, rest⟩⟩
      · simp at several
      · simp at several
      · have left := (members first).mp (by simp)
        have right := (members second).mp (by simp)
        have apartHeads : first ≠ second := by
          intro same
          exact (List.nodup_cons.mp distinct).1 (by simp [same])
        exact ⟨first, second, apartHeads, left.2, right.2, left.1, right.1⟩
    · intro inside
      obtain ⟨p, other, edge, dominates⟩ := inside.below
      exact ⟨⟨inside.outside, inside.inner⟩, p, (members p).mpr ⟨edge, other⟩, dominates⟩
  · next few =>
    simp only [Outcome.pure_eq, Outcome.returns.injEq] at step
    subst next
    have none : ¬ InFrontier g start w b := by
      intro inside
      obtain ⟨p, q, other, notP, notQ, edgeP, edgeQ⟩ := inside.two
      have pair : [p, q] ⊆ pred := by
        simp [(members p).mpr ⟨edgeP, notP⟩, (members q).mpr ⟨edgeQ, notQ⟩]
      have length := (List.subperm_of_subset (by simp [other]) pair).length_le
      exact few length
    simp [none]

theorem dominanceFrontiers_exact {vertices : Enumeration Nat} {df : Frontiers}
    (computed : (dominanceFrontiers g vertices fuel idom : Outcome ε _) = .returns df) (w d : Nat) :
    (∃ frontiers, df[w]? = some frontiers ∧ d ∈ frontiers) ↔ (g.vertexLabel d).isSome ∧ InFrontier g start w d := by
  simp only [dominanceFrontiers, Outcome.bind_eq_returns, Outcome.pure_eq, Outcome.returns.injEq] at computed
  obtain ⟨ret, folded, rfl⟩ := computed
  have empty : ∀ items : List Nat, valuesAt (items.foldl (fun ret v => ret.insert v []) (∅ : Frontiers)) w = [] := by
    intro items
    rw [valuesAt, getElem?_foldl_insert]
    split <;> simp
  have all : ∀ (items : List Nat) (before after : Frontiers), (∀ b ∈ items, (g.vertexLabel b).isSome) →
      Outcome.fold (frontierBlock g fuel idom) before items = (.returns after : Outcome ε _) →
      ∀ w d, d ∈ valuesAt after w ↔ d ∈ valuesAt before w ∨ (d ∈ items ∧ InFrontier g start w d) := by
    intro items
    induction items with
    | nil =>
      intro before after _ folded w d
      simp only [Outcome.fold, Outcome.returns.injEq] at folded
      simp [folded]
    | cons b items ih =>
      intro before after labelled folded w d
      simp only [Outcome.fold, Outcome.bind_eq_returns] at folded
      obtain ⟨middle, step, rest⟩ := folded
      rw [ih middle after (fun b member => labelled b (List.mem_cons_of_mem _ member)) rest,
        frontierBlock_exact valid tree (labelled b List.mem_cons_self) step, List.mem_cons]
      constructor
      · intro member
        rcases member with (old | ⟨rfl, inside⟩) | ⟨member, inside⟩
        · exact .inl old
        · exact .inr ⟨.inl rfl, inside⟩
        · exact .inr ⟨.inr member, inside⟩
      · intro member
        rcases member with old | ⟨rfl | member, inside⟩
        · exact .inl (.inl old)
        · exact .inl (.inr ⟨rfl, inside⟩)
        · exact .inr ⟨member, inside⟩
  have listed : ∀ v, v ∈ g.vertices vertices ↔ (g.vertexLabel v).isSome := by
    intro v
    simp [AdjacencyList.vertices, vertexLabel]
  have exact := all _ _ _ (fun b member => (listed b).mp member) folded w d
  rw [empty, listed] at exact
  simp only [List.not_mem_nil, false_or] at exact
  rw [← exact, valuesAt]
  cases found : ret[w]? with
  | none => simp [found]
  | some list => simp [found, mem_sortDedup]

end Exact

end Panopticon.Proofs.Frontier
