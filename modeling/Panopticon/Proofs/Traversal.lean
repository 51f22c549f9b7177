import Panopticon.Proofs.FrontierTotal

/-! Iterating passed a graph in preorder and in postorder. A postorder iteration does not
remember its start vertex and produces it a second time when a cycle leads back to it. -/

namespace Panopticon.Proofs.Traversal
open Library Relation AdjacencyList TreeIterator Proofs.Dominator Proofs.DominatorTotal Proofs.FrontierTotal

variable {N E ε : Type} {g : AdjacencyList N E} {start : Nat}

private theorem seekPreorder_some (valid : g.Consistent) {it next : TreeIterator} {position : Nat} {stack : List Nat}
    (sought : (seekPreorder g it position stack : Outcome ε (Option TreeIterator)) = .returns (some next)) :
    ∃ passed parent rest vx, position :: stack = passed ++ parent :: rest ∧
      (∀ v ∈ passed, ∀ w, g.Adjacent v w → w ∈ it.seen) ∧ g.Adjacent parent vx ∧ vx ∉ it.seen ∧
      next = it.discover parent rest vx := by
  induction stack generalizing position with
  | nil =>
    simp only [seekPreorder, outgoing, Outcome.bind_eq_returns, Outcome.unwrap_eq_returns] at sought
    obtain ⟨out, list, found, search, sought⟩ := sought
    rcases firstUnseen_cases valid list search with ⟨vx, rfl, edge, unseen⟩ | ⟨rfl, -⟩
    · simp only [Outcome.pure_eq, Outcome.returns.injEq, Option.some.injEq] at sought
      exact ⟨[], position, [], vx, rfl, by simp, edge, unseen, sought.symm⟩
    · cases sought
  | cons above stack ih =>
    simp only [seekPreorder, outgoing, Outcome.bind_eq_returns, Outcome.unwrap_eq_returns] at sought
    obtain ⟨out, list, found, search, sought⟩ := sought
    rcases firstUnseen_cases valid list search with ⟨vx, rfl, edge, unseen⟩ | ⟨rfl, drained⟩
    · simp only [Outcome.pure_eq, Outcome.returns.injEq, Option.some.injEq] at sought
      exact ⟨[], position, above :: stack, vx, rfl, by simp, edge, unseen, sought.symm⟩
    · obtain ⟨passed, parent, rest, vx, split, closed, edge, unseen, same⟩ := ih sought
      refine ⟨position :: passed, parent, rest, vx, by rw [split, List.cons_append], ?_, edge, unseen, same⟩
      exact List.forall_mem_cons.mpr ⟨drained, closed⟩

private theorem seekPreorder_none (valid : g.Consistent) {it : TreeIterator} {position : Nat} {stack : List Nat}
    (sought : (seekPreorder g it position stack : Outcome ε (Option TreeIterator)) = .returns none) :
    ∀ v ∈ position :: stack, ∀ w, g.Adjacent v w → w ∈ it.seen := by
  induction stack generalizing position with
  | nil =>
    simp only [seekPreorder, outgoing, Outcome.bind_eq_returns, Outcome.unwrap_eq_returns] at sought
    obtain ⟨out, list, found, search, sought⟩ := sought
    rcases firstUnseen_cases valid list search with ⟨vx, rfl, -⟩ | ⟨rfl, drained⟩
    · cases sought
    · exact List.forall_mem_cons.mpr ⟨drained, by simp⟩
  | cons above stack ih =>
    simp only [seekPreorder, outgoing, Outcome.bind_eq_returns, Outcome.unwrap_eq_returns] at sought
    obtain ⟨out, list, found, search, sought⟩ := sought
    rcases firstUnseen_cases valid list search with ⟨vx, rfl, -⟩ | ⟨rfl, drained⟩
    · cases sought
    · exact List.forall_mem_cons.mpr ⟨drained, ih sought⟩

private theorem seekPreorder_returns (valid : g.Consistent) (it : TreeIterator) {position : Nat} {stack : List Nat}
    (labelled : ∀ v ∈ position :: stack, (g.vertexLabel v).isSome) :
    ∃ answer, (seekPreorder g it position stack : Outcome ε (Option TreeIterator)) = .returns answer := by
  induction stack generalizing position with
  | nil =>
    obtain ⟨out, list⟩ := Option.isSome_iff_exists.mp ((valid.outKeys position).mpr (labelled position (by simp)))
    obtain ⟨found, searched⟩ := firstUnseen_returns (ε := ε) valid list it.seen
    simp only [seekPreorder, outgoing, list, Outcome.unwrap, Outcome.returns_bind, searched]
    cases found <;> exact ⟨_, rfl⟩
  | cons above stack ih =>
    obtain ⟨out, list⟩ := Option.isSome_iff_exists.mp ((valid.outKeys position).mpr (labelled position (by simp)))
    obtain ⟨found, searched⟩ := firstUnseen_returns (ε := ε) valid list it.seen
    simp only [seekPreorder, outgoing, list, Outcome.unwrap, Outcome.returns_bind, searched]
    cases found with
    | some vx => exact ⟨_, rfl⟩
    | none => exact ih fun v member => labelled v (List.mem_cons_of_mem _ member)

/-- What has been seen has been produced, once and after a predecessor, and is used up unless it lies on the way down. -/
structure Walked (g : AdjacencyList N E) (start : Nat) (it : TreeIterator) : Prop where
  produced : ∀ v, v ∈ it.seen ↔ v ∈ it.output
  once : it.output.Nodup
  size : it.seen.size = it.output.length
  inside : ∀ v ∈ it.output, Reachable g.Adjacent start v
  way : ∀ v ∈ it.position :: it.stack, v ∈ it.output
  closed : ∀ v ∈ it.output, v ∉ it.position :: it.stack → ∀ w, g.Adjacent v w → w ∈ it.output
  found : ∀ pre v post, it.output = pre ++ v :: post → v ≠ start → ∃ u ∈ pre, g.Adjacent u v
  root : start ∈ it.output

theorem Walked.initial (g : AdjacencyList N E) (start : Nat) :
    Walked g start { preorder start with
      seen := (preorder start).seen.insert start, output := (preorder start).output ++ [start] } := by
  refine ⟨?_, by simp [preorder], ?_, ?_, by simp [preorder], by simp [preorder], ?_, by simp [preorder]⟩
  · intro v
    simpa [preorder] using eq_comm (a := start)
  · simp [preorder, Std.ExtTreeSet.size_insert]
  · intro v member
    rw [show v = start by simpa [preorder] using member]
    exact ⟨_, .root⟩
  · intro pre v post split other
    have split : [] ++ [start] = pre ++ v :: post := split
    rcases split_concat split with ⟨-, same, -⟩ | ⟨front, -, empty⟩
    · exact absurd same.symm other
    · simp at empty

theorem Walked.discover {it : TreeIterator} (walked : Walked g start it) {passed rest : List Nat} {parent vx : Nat}
    (split : it.position :: it.stack = passed ++ parent :: rest)
    (drained : ∀ v ∈ passed, ∀ w, g.Adjacent v w → w ∈ it.seen) (edge : g.Adjacent parent vx) (unseen : vx ∉ it.seen) :
    Walked g start (it.discover parent rest vx) := by
  have present : parent ∈ it.output := walked.way parent (by simp [split])
  have fresh : vx ∉ it.output := fun member => unseen ((walked.produced vx).mpr member)
  constructor
  · intro v
    simp only [TreeIterator.discover, Std.ExtTreeSet.mem_insert, Nat.compare_eq_eq, walked.produced, List.mem_append,
      List.mem_singleton]
    rw [or_comm, eq_comm]
  · exact List.nodup_append.mpr ⟨walked.once, by simp, by grind⟩
  · have absent : ¬ it.seen.contains vx = true := by simpa using unseen
    simp only [TreeIterator.discover, Std.ExtTreeSet.size_insert, if_neg absent, List.length_append, walked.size,
      List.length_singleton]
  · intro v member
    rcases List.mem_append.mp member with member | member
    · exact walked.inside v member
    · rw [List.mem_singleton.mp member]
      exact (walked.inside parent present).step edge
  · intro v member
    rcases List.mem_cons.mp member with rfl | member
    · simp [TreeIterator.discover]
    · exact List.mem_append_left _ (walked.way v (by rw [split]; exact List.mem_append_right _ member))
  · intro v member outside w link
    simp only [TreeIterator.discover, List.mem_cons, not_or] at outside
    rcases List.mem_append.mp member with member | member
    · apply List.mem_append_left
      by_cases above : v ∈ passed
      · exact (walked.produced w).mp (drained v above w link)
      · refine walked.closed v member ?_ w link
        rw [split]
        simp [above, outside]
    · exact absurd (List.mem_singleton.mp member) outside.1
  · intro pre v post splitting other
    rcases split_concat splitting with ⟨rfl, rfl, -⟩ | ⟨front, -, before⟩
    · exact ⟨parent, present, edge⟩
    · exact walked.found pre v front before other
  · exact List.mem_append_left _ walked.root

/-- Before the first call nothing has happened, after it the invariant holds. -/
def Preordered (g : AdjacencyList N E) (start : Nat) (it : TreeIterator) : Prop := it = preorder start ∨ Walked g start it

theorem Preordered.next (valid : g.Consistent) {it next : TreeIterator} (ordered : Preordered g start it)
    (step : (nextPreorder g it : Outcome ε (Option TreeIterator)) = .returns (some next)) :
    Walked g start next ∧ it.seen.size < next.seen.size := by
  rcases ordered with rfl | walked
  · simp only [nextPreorder, preorder, Std.ExtTreeSet.contains_empty, Bool.false_eq_true, if_false, Outcome.pure_eq,
      Outcome.returns.injEq, Option.some.injEq] at step
    subst next
    exact ⟨.initial g start, by simp [preorder, Std.ExtTreeSet.size_insert]⟩
  · have seen : it.seen.contains it.position = true := by
      simpa using (walked.produced _).mpr (walked.way _ List.mem_cons_self)
    rw [nextPreorder, if_pos seen] at step
    obtain ⟨passed, parent, rest, vx, split, drained, edge, unseen, rfl⟩ := seekPreorder_some valid step
    have kept := walked.discover split drained edge unseen
    exact ⟨kept, by rw [kept.size, walked.size, TreeIterator.discover, List.length_append, List.length_singleton]; omega⟩

theorem Preordered.stopped (valid : g.Consistent) {it : TreeIterator} (ordered : Preordered g start it)
    (stop : (nextPreorder g it : Outcome ε (Option TreeIterator)) = .returns none) :
    Walked g start it ∧ ∀ v ∈ it.output, ∀ w, g.Adjacent v w → w ∈ it.output := by
  rcases ordered with rfl | walked
  · simp [nextPreorder, preorder] at stop
  · refine ⟨walked, ?_⟩
    have seen : it.seen.contains it.position = true := by
      simpa using (walked.produced _).mpr (walked.way _ List.mem_cons_self)
    rw [nextPreorder, if_pos seen] at stop
    intro v member w link
    by_cases here : v ∈ it.position :: it.stack
    · exact (walked.produced w).mp (seekPreorder_none valid stop v here w link)
    · exact walked.closed v member here w link

private theorem nextPreorder_returns (valid : g.Consistent) (entry : (g.vertexLabel start).isSome) {it : TreeIterator}
    (ordered : Preordered g start it) :
    ∃ answer, (nextPreorder g it : Outcome ε (Option TreeIterator)) = .returns answer := by
  rcases ordered with rfl | walked
  · exact ⟨_, by simp [nextPreorder, preorder]; rfl⟩
  · rw [nextPreorder]
    split
    · apply seekPreorder_returns valid
      intro v member
      exact labelled_of_reachable valid entry (walked.inside v (walked.way v member))
    · exact ⟨_, rfl⟩

theorem Preordered.size (valid : g.Consistent) (entry : (g.vertexLabel start).isSome) {it : TreeIterator}
    (ordered : Preordered g start it) : it.seen.size ≤ g.numVertices := by
  rcases ordered with rfl | walked
  · simp [preorder]
  · exact seen_size valid entry fun v member => walked.inside v ((walked.produced v).mp member)

private theorem collectPreorder_returns (valid : g.Consistent) (entry : (g.vertexLabel start).isSome) {fuel : Nat}
    (enough : g.numVertices < fuel) :
    ∃ it, Outcome.repeated (fun _ => nextPreorder (ε := ε) g) fuel 0 (preorder start) = .returns it ∧
      Walked g start it ∧ ∀ v ∈ it.output, ∀ w, g.Adjacent v w → w ∈ it.output := by
  have ran := Outcome.repeated_returns (fun _ => nextPreorder (ε := ε) g) g.numVertices
    (fun turn it => Preordered g start it ∧ turn ≤ it.seen.size) ?_ fuel (preorder start) ⟨.inl rfl, by simp [preorder]⟩
    (Nat.zero_le _) enough
  · obtain ⟨it, finished, _, ⟨ordered, -⟩, stop⟩ := ran
    exact ⟨it, finished, ordered.stopped valid stop⟩
  · intro turn it holds
    obtain ⟨ordered, count⟩ := holds
    obtain ⟨answer, returned⟩ := nextPreorder_returns (ε := ε) valid entry ordered
    cases answer with
    | none => exact .inl returned
    | some next =>
      obtain ⟨walked, more⟩ := ordered.next valid returned
      have bound := Preordered.size valid entry (.inr walked)
      exact .inr ⟨next, returned, ⟨.inr walked, by omega⟩, by omega⟩

/-- How often `start` is met, and that everything on the way down leads to what comes after it. -/
structure Postordered (g : AdjacencyList N E) (start : Nat) (it : TreeIterator) : Prop where
  twice : (it.output ++ it.position :: it.stack).count start = 2 + if start ∈ it.seen then 1 else 0
  circle : ∀ v ∈ it.seen, TransGen g.Adjacent start v
  climbing : (it.position :: it.stack).Pairwise fun child parent => ReflTransGen g.Adjacent parent child
  targets : ∀ pre v post, it.output = pre ++ v :: post → ∀ w, g.Adjacent v w → w ∈ pre ∨ ReflTransGen g.Adjacent w v

theorem Postordered.initial (g : AdjacencyList N E) (start : Nat) : Postordered g start (postorder start) := by
  refine ⟨by simp [postorder], by simp [postorder], ?_, by simp [postorder]⟩
  simp [postorder, ReflTransGen.refl]

theorem Postordered.next (valid : g.Consistent) {it next : TreeIterator} (visited : Visited g start it)
    (explored : Explored g start it) (ordered : Postordered g start it)
    (step : (nextPostorder g it : Outcome ε (Option TreeIterator)) = .returns (some next)) :
    Postordered g start next := by
  rcases nextPostorder_cases valid step with ⟨vx, edge, unseen, rfl⟩ | ⟨parent, stack, same, drained, rfl⟩
  · constructor
    · have one : (it.output ++ vx :: it.position :: it.stack).Perm (vx :: (it.output ++ it.position :: it.stack)) :=
        List.perm_middle
      rw [one.count_eq, List.count_cons, ordered.twice]
      simp only [Std.ExtTreeSet.mem_insert, Nat.compare_eq_eq, beq_iff_eq]
      by_cases again : vx = start
      · simp [again, again ▸ unseen]
      · simp [again]
    · intro v member
      simp only [Std.ExtTreeSet.mem_insert, Nat.compare_eq_eq] at member
      rcases member with rfl | member
      · exact TransGen.tail' (reachable_iff.mp visited.position) edge
      · exact ordered.circle v member
    · refine List.pairwise_cons.mpr ⟨?_, ordered.climbing⟩
      intro above member
      rcases List.mem_cons.mp member with rfl | member
      · exact .single edge
      · exact ((List.pairwise_cons.mp ordered.climbing).1 above member).tail edge
    · exact ordered.targets
  · have whole : (it.output ++ [it.position]) ++ parent :: stack = it.output ++ it.position :: it.stack := by
      rw [same, List.append_assoc]
      rfl
    refine ⟨by rw [whole]; exact ordered.twice, ordered.circle, ?_, ?_⟩
    · have climbing := ordered.climbing
      rw [same] at climbing
      exact (List.pairwise_cons.mp climbing).2
    · intro pre v post split w link
      rcases split_concat split with ⟨rfl, rfl, -⟩ | ⟨front, -, before⟩
      · rcases explored.known w (drained w link) with produced | above
        · exact .inl produced
        · rcases List.mem_cons.mp above with rfl | above
          · exact .inr .refl
          · exact .inr ((List.pairwise_cons.mp ordered.climbing).1 w above)
      · exact ordered.targets pre v front before w link

/-- What a finished postorder says about repetitions of `start`, and about targets. -/
theorem collectPostorder_ordered (valid : g.Consistent) {fuel : Nat} {order : List Nat}
    (collected : (collectPostorder g fuel start : Outcome ε (List Nat)) = .returns order) :
    (order.count start = 1 ↔ ¬TransGen g.Adjacent start start) ∧
    ∀ pre v post, order = pre ++ v :: post → ∀ w, g.Adjacent v w → w ∈ pre ∨ ReflTransGen g.Adjacent w v := by
  have complete := fun v => (reachable_of_postorder (v := v) valid collected)
  obtain ⟨before, ending⟩ := (collectPostorder_nested valid collected).1
  simp only [collectPostorder, Outcome.bind_eq_returns, Outcome.pure_eq, Outcome.returns.injEq] at collected
  obtain ⟨it, finished, rfl⟩ := collected
  obtain ⟨⟨visited, explored, nested, ordered⟩, turn, stopped⟩ := Outcome.repeated_invariant
    (fun it => Visited g start it ∧ Explored g start it ∧ Nested g start it ∧ Postordered g start it)
    (fun _ _ _ holds step => by
      obtain ⟨visited, explored, nested, ordered⟩ := holds
      exact ⟨visited.next valid step, explored.next valid step, nested.next valid step,
        ordered.next valid visited explored step⟩)
    ⟨.initial g start, .initial g start, .initial g start, .initial g start⟩ finished
  have empty := nextPostorder_none stopped
  obtain ⟨position, -⟩ := nested.drained empty
  refine ⟨?_, ordered.targets⟩
  have count := ordered.twice
  rw [empty, position, List.count_append, List.count_singleton_self] at count
  have again : start ∈ it.seen ↔ TransGen g.Adjacent start start := by
    refine ⟨ordered.circle start, ?_⟩
    intro circle
    obtain ⟨u, path, link⟩ := TransGen.tail'_iff.mp circle
    have produced : ∀ v, ReflTransGen g.Adjacent start v → v ∈ it.output := by
      intro v path
      induction path with
      | refl => rw [ending]; simp
      | @tail u v _ link ih =>
        rcases explored.known v (explored.closed u ih v link) with inside | here
        · exact inside
        · rw [empty, List.mem_singleton, position] at here
          rw [here, ending]
          simp
    exact explored.closed u (produced u path) start link
  rw [← again]
  split_ifs at count with member
  · simp only [member, not_true_eq_false, iff_false]
    omega
  · simp only [member, not_false_eq_true, iff_true]
    omega

/-- Preorder comes to a vertex from a predecessor, postorder leaves a vertex after its successors. -/
def Ordered (g : AdjacencyList N E) (start : Nat) (list : List Nat) : TraversalOrder → Prop
  | .preorder => ∀ pre v post, list = pre ++ v :: post → v ≠ start → ∃ u ∈ pre, g.Adjacent u v
  | .postorder =>
    (∀ pre v post, list = pre ++ v :: post → ∀ w, g.Adjacent v w → ¬ReflTransGen g.Adjacent w v → w ∈ pre) ∧
    ∃ before, list = before ++ [start]

/-- Every vertex reachable from `start` once and no other, in the order asked for. -/
structure Right (g : AdjacencyList N E) (start : Nat) (order : TraversalOrder) (list : List Nat) : Prop where
  once : list.Nodup
  reachable : ∀ v, v ∈ list ↔ Reachable g.Adjacent start v
  ordered : Ordered g start list order

private theorem preorder_right (valid : g.Consistent) (entry : (g.vertexLabel start).isSome) :
    ∃ list, (∀ fuel, g.numVertices < fuel → (collectPreorder g fuel start : Outcome ε _) = .returns list) ∧
      Right g start .preorder list := by
  obtain ⟨it, finished, walked, closed⟩ := collectPreorder_returns (ε := ε) valid entry (Nat.lt_succ_self _)
  refine ⟨it.output, ?_, walked.once, ?_, walked.found⟩
  · intro fuel enough
    simp only [collectPreorder, Outcome.repeated_mono finished enough, Outcome.returns_bind, Outcome.pure_eq]
  · intro v
    refine ⟨walked.inside v, ?_⟩
    intro reachable
    have path := reachable_iff.mp reachable
    induction path with
    | refl => exact walked.root
    | @tail u v path link ih => exact closed u (ih (reachable_iff.mpr path)) v link

private theorem nodup_iff_count {list : List Nat} (others : (list.filter (· != start)).Nodup) (member : start ∈ list) :
    list.Nodup ↔ list.count start = 1 := by
  constructor
  · intro once
    exact List.count_eq_one_of_mem once member
  · intro once
    rw [List.nodup_iff_count_le_one]
    intro v
    by_cases same : v = start
    · exact same ▸ once.le
    · have other : (v != start) = true := by simpa using same
      rw [← List.count_filter (p := (· != start)) other]
      exact List.nodup_iff_count_le_one.mp others v

private theorem postorder_right (valid : g.Consistent) (entry : (g.vertexLabel start).isSome) :
    ∃ list, (∀ fuel, 2 * g.numVertices + 1 < fuel → (collectPostorder g fuel start : Outcome ε _) = .returns list) ∧
      (Right g start .postorder list ↔ ¬TransGen g.Adjacent start start) := by
  obtain ⟨list, collected⟩ := exists_collectPostorder (ε := ε) valid entry
  refine ⟨list, collected, ?_⟩
  have finished := collected _ (Nat.lt_succ_self _)
  obtain ⟨exactly, others⟩ := collectPostorder_exact valid finished
  obtain ⟨single, targets⟩ := collectPostorder_ordered valid finished
  rw [← single, ← nodup_iff_count others (start_mem_postorder valid finished)]
  refine ⟨fun right => right.once, fun once => ⟨once, exactly, ?_, (collectPostorder_nested valid finished).1⟩⟩
  intro pre v post split w link away
  exact (targets pre v post split w link).resolve_right away

/-- Every iteration ends, and is right unless it is a postorder whose start lies on a cycle. -/
theorem collect_iff (valid : g.Consistent) (entry : (g.vertexLabel start).isSome) (order : TraversalOrder) :
    ∃ list, (∀ fuel, 2 * g.numVertices + 1 < fuel → (collect g fuel start order : Outcome ε _) = .returns list) ∧
      (Right g start order list ↔ (order = .postorder → ¬TransGen g.Adjacent start start)) := by
  cases order with
  | preorder =>
    obtain ⟨list, collected, right⟩ := preorder_right (ε := ε) valid entry
    exact ⟨list, fun fuel enough => collected fuel (by omega), by simp [right]⟩
  | postorder =>
    obtain ⟨list, collected, right⟩ := postorder_right (ε := ε) valid entry
    exact ⟨list, collected, by simpa using right⟩

theorem collect_twoBlocks :
    ∃ list, (∀ fuel, 2 * (twoBlocks 0).numVertices + 1 < fuel →
      (collect (twoBlocks 0) fuel 0 .preorder : Outcome Empty _) = .returns list) ∧
      (Right (twoBlocks 0) 0 .preorder list ↔
        (TraversalOrder.preorder = .postorder → ¬TransGen (twoBlocks 0).Adjacent 0 0)) :=
  collect_iff (.ofLists _ _) (by decide) .preorder

/-- Two blocks that lead to each other: the postorder begins and ends with the first one. -/
theorem postorder_twice : (∀ fuel, 5 < fuel → (collect (twoBlocks 0) fuel 0 .postorder : Outcome Empty _) = .returns [0, 1, 0]) ∧
    ¬Right (twoBlocks 0) 0 .postorder [0, 1, 0] := by
  refine ⟨?_, fun right => absurd right.once (by decide)⟩
  intro fuel enough
  have valid : (twoBlocks 0).Consistent := .ofLists _ _
  have entry : ((twoBlocks 0).vertexLabel 0).isSome := by decide
  obtain ⟨list, collected⟩ := exists_collectPostorder (ε := Empty) valid entry
  have short : (collect (twoBlocks 0) 6 0 .postorder : Outcome Empty _) = .returns [0, 1, 0] := by decide
  have size : (twoBlocks 0).numVertices = 2 := by decide
  rw [size] at collected
  have same : list = [0, 1, 0] := by simpa [collect, collected 6 (by omega)] using short
  rw [collect, collected fuel enough, same]

end Panopticon.Proofs.Traversal
