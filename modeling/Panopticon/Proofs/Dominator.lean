import Panopticon.Library.Dominance
import Panopticon.Proofs.Store

/-! The table of immediate dominators is settled: ancestors in it dominate. Only what
the last pass has checked is used, so nothing depends on the postorder being one. -/

namespace Panopticon.Proofs.Dominator
open Library Panopticon.Dominator AdjacencyList

variable {N E ε : Type} {g : AdjacencyList N E}

theorem mem_sortDedup {values : List Nat} {v : Nat} : v ∈ sortDedup values ↔ v ∈ values := by
  simp [sortDedup, List.mem_dedup, List.mem_insertionSort]

theorem mem_predecessors (valid : g.Consistent) {b p : Nat} {pred : List Nat}
    (found : (predecessors g b : Outcome ε (List Nat)) = .returns pred) :
    p ∈ pred ↔ g.Adjacent p b ∧ p ≠ b := by
  simp only [predecessors, incoming, Outcome.bind_eq_returns, Outcome.unwrap_eq_returns, Outcome.pure_eq,
    Outcome.returns.injEq] at found
  obtain ⟨into, list, sources, ends, rfl⟩ := found
  obtain ⟨-, members⟩ := valid.inList b into list
  simp only [mem_sortDedup, List.mem_filter, bne_iff_ne, and_congr_left_iff, Outcome.mem_each ends, source,
    Outcome.unwrap_eq_returns, Option.map_eq_some_iff]
  intro _
  constructor
  · intro holds
    obtain ⟨e, member, ⟨p, b'⟩, entry, same⟩ := holds
    obtain ⟨u, entry'⟩ := (members e).mp member
    rw [entry] at entry'
    cases entry'
    cases same
    exact ⟨e, entry⟩
  · intro holds
    obtain ⟨e, entry⟩ := holds
    exact ⟨e, (members e).mpr ⟨p, entry⟩, (p, b), entry, rfl⟩

theorem nodup_predecessors {b : Nat} {pred : List Nat}
    (found : (predecessors g b : Outcome ε (List Nat)) = .returns pred) : pred.Nodup := by
  simp only [predecessors, Outcome.bind_eq_returns, Outcome.pure_eq, Outcome.returns.injEq] at found
  obtain ⟨into, -, sources, -, rfl⟩ := found
  exact List.nodup_dedup _

section Postorder
variable {start : Nat}

/-- Everything an iteration holds is reachable. -/
structure Visited (g : AdjacencyList N E) (start : Nat) (it : TreeIterator) : Prop where
  stack : ∀ v ∈ it.stack, Reachable g.Adjacent start v
  position : Reachable g.Adjacent start it.position
  output : ∀ v ∈ it.output, Reachable g.Adjacent start v

private theorem firstUnseen_some {seen : Std.ExtTreeSet Nat} {out : List Nat} {vx : Nat}
    (found : (TreeIterator.firstUnseen g seen out : Outcome ε (Option Nat)) = .returns (some vx)) :
    vx ∉ seen ∧ ∃ e ∈ out, g.target e = some vx := by
  induction out with
  | nil => simp [TreeIterator.firstUnseen] at found
  | cons e out ih =>
    simp only [TreeIterator.firstUnseen, Outcome.bind_eq_returns, Outcome.unwrap_eq_returns] at found
    obtain ⟨w, target, rest⟩ := found
    split at rest
    · obtain ⟨unseen, e', member, target'⟩ := ih rest
      exact ⟨unseen, e', List.mem_cons_of_mem _ member, target'⟩
    · next unseen =>
      simp only [Outcome.pure_eq, Outcome.returns.injEq, Option.some.injEq] at rest
      subst w
      exact ⟨by simpa using unseen, e, List.mem_cons_self, target⟩

private theorem firstUnseen_none {seen : Std.ExtTreeSet Nat} {out : List Nat}
    (found : (TreeIterator.firstUnseen g seen out : Outcome ε (Option Nat)) = .returns none) {e vx : Nat}
    (member : e ∈ out) (target : g.target e = some vx) : vx ∈ seen := by
  induction out with
  | nil => cases member
  | cons first out ih =>
    simp only [TreeIterator.firstUnseen, Outcome.bind_eq_returns, Outcome.unwrap_eq_returns] at found
    obtain ⟨w, here, rest⟩ := found
    split at rest
    · next inside =>
      rcases List.mem_cons.mp member with rfl | member
      · rw [here] at target
        cases target
        simpa using inside
      · exact ih rest member
    · cases rest

theorem firstUnseen_cases (valid : g.Consistent) {seen : Std.ExtTreeSet Nat} {v : Nat} {out : List Nat} {found : Option Nat}
    (list : g.outEdges[v]? = some out)
    (search : (TreeIterator.firstUnseen g seen out : Outcome ε (Option Nat)) = .returns found) :
    (∃ vx, found = some vx ∧ g.Adjacent v vx ∧ vx ∉ seen) ∨ (found = none ∧ ∀ vx, g.Adjacent v vx → vx ∈ seen) := by
  cases found with
  | some vx =>
    obtain ⟨unseen, e, member, target⟩ := firstUnseen_some search
    obtain ⟨w, entry⟩ := ((valid.outList _ _ list).2 e).mp member
    simp only [AdjacencyList.target, entry, Option.map_some, Option.some.injEq] at target
    subst w
    exact .inl ⟨vx, rfl, ⟨e, entry⟩, unseen⟩
  | none =>
    refine .inr ⟨rfl, ?_⟩
    intro vx edge
    obtain ⟨e, entry⟩ := edge
    exact firstUnseen_none search (((valid.outList _ _ list).2 e).mpr ⟨vx, entry⟩) (by simp [target, entry])

theorem nextPostorder_cases (valid : g.Consistent) {it next : TreeIterator}
    (step : (TreeIterator.nextPostorder g it : Outcome ε (Option TreeIterator)) = .returns (some next)) :
    (∃ vx, g.Adjacent it.position vx ∧ vx ∉ it.seen ∧
      next = { it with seen := it.seen.insert vx, stack := it.position :: it.stack, position := vx }) ∨
    (∃ parent stack, it.stack = parent :: stack ∧ (∀ vx, g.Adjacent it.position vx → vx ∈ it.seen) ∧
      next = { it with stack, position := parent, output := it.output ++ [it.position] }) := by
  simp only [TreeIterator.nextPostorder, outgoing, Outcome.bind_eq_returns, Outcome.unwrap_eq_returns] at step
  obtain ⟨out, list, found, search, step⟩ := step
  rcases firstUnseen_cases valid list search with ⟨vx, rfl, edge, unseen⟩ | ⟨rfl, drained⟩
  · simp only [Outcome.pure_eq, Outcome.returns.injEq, Option.some.injEq] at step
    exact .inl ⟨vx, edge, unseen, step.symm⟩
  · cases stack : it.stack with
    | nil => simp [stack] at step
    | cons parent rest =>
      simp only [stack, Outcome.pure_eq, Outcome.returns.injEq, Option.some.injEq] at step
      exact .inr ⟨parent, rest, rfl, drained, step.symm⟩

theorem Visited.initial (g : AdjacencyList N E) (start : Nat) : Visited g start (TreeIterator.postorder start) := by
  have root : Reachable g.Adjacent start start := ⟨_, .root⟩
  exact ⟨by simpa [TreeIterator.postorder] using root, root, by simp [TreeIterator.postorder]⟩

theorem Visited.next (valid : g.Consistent) {it next : TreeIterator} (visited : Visited g start it)
    (step : (TreeIterator.nextPostorder g it : Outcome ε (Option TreeIterator)) = .returns (some next)) :
    Visited g start next := by
  rcases nextPostorder_cases valid step with ⟨vx, edge, -, rfl⟩ | ⟨parent, stack, same, -, rfl⟩
  · exact ⟨List.forall_mem_cons.mpr ⟨visited.position, visited.stack⟩, visited.position.step edge, visited.output⟩
  · have above := visited.stack
    rw [same] at above
    refine ⟨(List.forall_mem_cons.mp above).2, (List.forall_mem_cons.mp above).1, ?_⟩
    intro v member
    rcases List.mem_append.mp member with member | member
    · exact visited.output v member
    · rw [List.mem_singleton.mp member]
      exact visited.position

theorem split_concat {α : Type} {list pre post : List α} {last v : α} (split : list ++ [last] = pre ++ v :: post) :
    (list = pre ∧ last = v ∧ post = []) ∨ ∃ front, post = front ++ [last] ∧ list = pre ++ v :: front := by
  rcases List.eq_nil_or_concat post with rfl | ⟨front, final, rfl⟩
  · obtain ⟨same, tail⟩ := List.append_inj' split rfl
    exact .inl ⟨same, (List.cons.inj tail).1, rfl⟩
  · rw [List.concat_eq_append, ← List.cons_append, ← List.append_assoc] at split
    obtain ⟨same, tail⟩ := List.append_inj' split rfl
    exact .inr ⟨front, by rw [List.concat_eq_append, (List.cons.inj tail).1], same⟩

/-- The vertices on the way to the position were found from one another, two copies of `start` lie below them
until it has been produced for good, and what has been produced was found from a vertex that comes later. -/
structure Nested (g : AdjacencyList N E) (start : Nat) (it : TreeIterator) : Prop where
  linked : List.IsChain (fun child parent => child = start ∨ g.Adjacent parent child) (it.position :: it.stack)
  bottom : [start, start] <:+ it.position :: it.stack ∨
    (it.stack = [] ∧ it.position = start ∧ (∀ v, g.Adjacent start v → v ∈ it.seen) ∧
      ∃ before, it.output = before ++ [start])
  found : ∀ pre v post, it.output = pre ++ v :: post → v ≠ start →
    ∃ u, g.Adjacent u v ∧ (u ∈ it.position :: it.stack ∨ u ∈ post)

theorem Nested.down {it : TreeIterator} (nested : Nested g start it) {vx : Nat} (edge : g.Adjacent it.position vx)
    (unseen : vx ∉ it.seen) :
    Nested g start { it with seen := it.seen.insert vx, stack := it.position :: it.stack, position := vx } := by
  refine ⟨List.isChain_cons_cons.mpr ⟨.inr edge, nested.linked⟩, ?_, ?_⟩
  · rcases nested.bottom with suffix | ⟨-, position, drained, -⟩
    · exact .inl (suffix.trans (List.suffix_cons _ _))
    · exact absurd (drained vx (position ▸ edge)) unseen
  · intro pre v post split other
    obtain ⟨u, link, inside⟩ := nested.found pre v post split other
    exact ⟨u, link, inside.imp_left (List.mem_cons_of_mem _)⟩

theorem Nested.back {it : TreeIterator} (nested : Nested g start it) {parent : Nat} {stack : List Nat}
    (same : it.stack = parent :: stack) (drained : ∀ vx, g.Adjacent it.position vx → vx ∈ it.seen) :
    Nested g start { it with stack, position := parent, output := it.output ++ [it.position] } := by
  have linked := nested.linked
  have bottom := nested.bottom
  rw [same] at linked bottom
  refine ⟨(List.isChain_cons_cons.mp linked).2, ?_, ?_⟩
  · rcases bottom with suffix | ⟨empty, -⟩
    · rcases List.suffix_cons_iff.mp suffix with whole | rest
      · have parts := List.cons.inj whole
        have tail := List.cons.inj parts.2
        rw [← parts.1] at drained
        exact .inr ⟨tail.2.symm, tail.1.symm, drained, it.output, by rw [← parts.1]⟩
      · exact .inl rest
    · cases empty
  · intro pre v post split other
    rcases split_concat split with ⟨-, here, -⟩ | ⟨front, rfl, before⟩
    · have edge := ((List.isChain_cons_cons.mp linked).1).resolve_left (here ▸ other)
      exact ⟨parent, here ▸ edge, .inl List.mem_cons_self⟩
    · obtain ⟨u, link, inside⟩ := nested.found pre v front before other
      refine ⟨u, link, ?_⟩
      rw [same, List.mem_cons] at inside
      rw [List.mem_append, List.mem_singleton]
      rcases inside with (above | above) | later
      · exact .inr (.inr above)
      · exact .inl above
      · exact .inr (.inl later)

theorem Nested.next (valid : g.Consistent) {it next : TreeIterator} (nested : Nested g start it)
    (step : (TreeIterator.nextPostorder g it : Outcome ε (Option TreeIterator)) = .returns (some next)) :
    Nested g start next := by
  rcases nextPostorder_cases valid step with ⟨vx, edge, unseen, rfl⟩ | ⟨parent, stack, same, drained, rfl⟩
  · exact nested.down edge unseen
  · exact nested.back same drained

theorem Nested.initial (g : AdjacencyList N E) (start : Nat) : Nested g start (TreeIterator.postorder start) :=
  ⟨by simp [TreeIterator.postorder], .inl List.suffix_rfl, by simp [TreeIterator.postorder]⟩

theorem nextPostorder_none {it : TreeIterator}
    (stopped : (TreeIterator.nextPostorder g it : Outcome ε (Option TreeIterator)) = .returns none) : it.stack = [] := by
  simp only [TreeIterator.nextPostorder, Outcome.bind_eq_returns] at stopped
  obtain ⟨out, -, found, -, stopped⟩ := stopped
  cases found with
  | some vx => simp at stopped
  | none =>
    cases stack : it.stack with
    | nil => rfl
    | cons parent stack => simp [stack] at stopped

theorem Nested.drained {it : TreeIterator} (nested : Nested g start it) (empty : it.stack = []) :
    it.position = start ∧ ∃ before, it.output = before ++ [start] := by
  rcases nested.bottom with suffix | ⟨-, position, -, ending⟩
  · have short := suffix.length_le
    simp [empty] at short
  · exact ⟨position, ending⟩

/-- What a finished postorder says: it ends with `start`, and every other vertex comes before one it was found from. -/
theorem collectPostorder_nested (valid : g.Consistent) {fuel : Nat} {order : List Nat}
    (collected : (TreeIterator.collectPostorder g fuel start : Outcome ε (List Nat)) = .returns order) :
    (∃ before, order = before ++ [start]) ∧
    ∀ pre v post, order = pre ++ v :: post → v ≠ start → ∃ u ∈ post, g.Adjacent u v := by
  simp only [TreeIterator.collectPostorder, Outcome.bind_eq_returns, Outcome.pure_eq, Outcome.returns.injEq] at collected
  obtain ⟨it, finished, rfl⟩ := collected
  obtain ⟨nested, turn, stopped⟩ :=
    Outcome.repeated_invariant (Nested g start) (fun _ _ _ nested => nested.next valid) (.initial g start) finished
  have empty := nextPostorder_none stopped
  obtain ⟨position, before, ending⟩ := nested.drained empty
  refine ⟨⟨before, ending⟩, ?_⟩
  intro pre v post split other
  obtain ⟨u, link, inside⟩ := nested.found pre v post split other
  refine ⟨u, ?_, link⟩
  rcases inside with here | later
  · rw [empty, List.mem_singleton, position] at here
    subst u
    -- the output ends with `start`, and `v` is not that last entry
    rcases split_concat (ending.symm.trans split) with ⟨-, same, -⟩ | ⟨front, rfl, -⟩
    · exact absurd same.symm other
    · simp
  · exact later

theorem start_mem_postorder (valid : g.Consistent) {fuel : Nat} {order : List Nat}
    (collected : (TreeIterator.collectPostorder g fuel start : Outcome ε (List Nat)) = .returns order) :
    start ∈ order := by
  obtain ⟨⟨before, rfl⟩, -⟩ := collectPostorder_nested valid collected
  simp

theorem reachable_of_postorder (valid : g.Consistent) {fuel v : Nat} {order : List Nat}
    (collected : (TreeIterator.collectPostorder g fuel start : Outcome ε (List Nat)) = .returns order)
    (member : v ∈ order) : Reachable g.Adjacent start v := by
  simp only [TreeIterator.collectPostorder, Outcome.bind_eq_returns, Outcome.pure_eq, Outcome.returns.injEq] at collected
  obtain ⟨it, finished, rfl⟩ := collected
  have last := Outcome.repeated_invariant (Visited g start) (fun _ _ _ visited => visited.next valid)
    (.initial g start) finished
  exact last.1.output v member

end Postorder

theorem positions_concat (postorder : List Nat) (v : Nat) :
    positions (postorder ++ [v]) = (positions postorder).insert v postorder.length := by
  simp [positions, List.zipIdx_append, List.foldl_append]

theorem getElem?_positions_last {postorder : List Nat} {v i : Nat} (found : (positions postorder)[v]? = some i) :
    postorder[i]? = some v ∧ ∀ j, postorder[j]? = some v → j ≤ i := by
  induction postorder using List.reverseRecOn with
  | nil => simp [positions] at found
  | append_singleton postorder w ih =>
    simp only [positions_concat, Std.ExtTreeMap.getElem?_insert, Nat.compare_eq_eq] at found
    split at found
    · next same =>
      cases found
      refine ⟨by simp [same], ?_⟩
      intro j there
      have inside := (List.getElem?_eq_some_iff.mp there).1
      simp only [List.length_append, List.length_singleton] at inside
      omega
    · next other =>
      obtain ⟨here, last⟩ := ih found
      have inside := (List.getElem?_eq_some_iff.mp here).1
      refine ⟨by rw [List.getElem?_append_left inside, here], ?_⟩
      intro j there
      by_cases below : j < postorder.length
      · rw [List.getElem?_append_left below] at there
        exact last j there
      · rw [List.getElem?_append_right (by omega), List.getElem?_singleton] at there
        split at there
        · exact absurd (Option.some.inj there) other
        · cases there

theorem getElem?_positions {postorder : List Nat} {v i : Nat} (found : (positions postorder)[v]? = some i) :
    postorder[i]? = some v := (getElem?_positions_last found).1

theorem positions_of_mem {postorder : List Nat} {v : Nat} (member : v ∈ postorder) :
    ∃ i, (positions postorder)[v]? = some i := by
  induction postorder using List.reverseRecOn with
  | nil => cases member
  | append_singleton postorder w ih =>
    simp only [positions_concat, Std.ExtTreeMap.getElem?_insert, Nat.compare_eq_eq]
    split
    · exact ⟨_, rfl⟩
    · next other =>
      rcases List.mem_append.mp member with member | member
      · exact ih member
      · exact absurd (List.mem_singleton.mp member).symm other

section Order
variable {fuel start : Nat} {order : List Nat} (valid : g.Consistent)
  (collected : (TreeIterator.collectPostorder g fuel start : Outcome ε (List Nat)) = .returns order)
include valid collected

/-- Every vertex but `start` has a predecessor at a later position. -/
theorem later_predecessor {v i : Nat} (inner : v ≠ start) (found : (positions order)[v]? = some i) :
    ∃ u j, g.Adjacent u v ∧ (positions order)[u]? = some j ∧ i < j := by
  have here := getElem?_positions found
  obtain ⟨inside, same⟩ := List.getElem?_eq_some_iff.mp here
  have split : order = order.take i ++ v :: order.drop (i + 1) := by
    rw [← same, List.getElem_cons_drop, List.take_append_drop]
  obtain ⟨u, later, link⟩ := (collectPostorder_nested valid collected).2 _ _ _ split inner
  obtain ⟨k, there⟩ := List.mem_iff_getElem?.mp later
  rw [List.getElem?_drop] at there
  obtain ⟨j, position⟩ := positions_of_mem (List.mem_of_getElem? there)
  have last := (getElem?_positions_last position).2 _ there
  exact ⟨u, j, link, position, by omega⟩

/-- Going back to later positions gives a walk from `start` on which positions fall. -/
theorem falling_trace {v i : Nat} (found : (positions order)[v]? = some i) :
    ∃ walk, Trace g.Adjacent start v walk ∧ ∀ u ∈ walk, u = v ∨ ∃ j, (positions order)[u]? = some j ∧ i < j := by
  have inside := (List.getElem?_eq_some_iff.mp (getElem?_positions found)).1
  induction rest : order.length - i using Nat.strongRecOn generalizing v i with
  | ind rest ih =>
    by_cases top : v = start
    · subst top
      exact ⟨_, .root, fun u member => .inl (List.mem_singleton.mp member)⟩
    · obtain ⟨u, j, link, position, less⟩ := later_predecessor valid collected top found
      have inside' := (List.getElem?_eq_some_iff.mp (getElem?_positions position)).1
      obtain ⟨walk, trace, falling⟩ := ih _ (by omega) position inside' rfl
      refine ⟨_, trace.step link, List.forall_mem_cons.mpr ⟨.inl rfl, ?_⟩⟩
      intro w member
      rcases falling w member with rfl | ⟨k, there, later⟩
      · exact .inr ⟨j, position, less⟩
      · exact .inr ⟨k, there, by omega⟩

private theorem position_lt_of_strictlyDominates {a v i j : Nat} (strict : StrictlyDominates g.Adjacent start a v)
    (found : (positions order)[v]? = some i) (above : (positions order)[a]? = some j) : i < j := by
  obtain ⟨walk, trace, falling⟩ := falling_trace valid collected found
  obtain ⟨k, there, less⟩ := (falling a (strict.1 walk trace)).resolve_left strict.2
  rw [above] at there
  cases there
  exact less

end Order

section Climbing
variable {fuel start : Nat} {postorder : List Nat} {ret : DominatorTable}

/-- The finger at `f` points to an ancestor of `b`. -/
def Points (start : Nat) (postorder : List Nat) (ret : DominatorTable) (b f : Nat) : Prop :=
  ∃ x, postorder[f]? = some x ∧ Above start (ret[·]?) b x

theorem Points.climb {b f next : Nat} (root : ret[start]? = some start) (points : Points start postorder ret b f)
    (moved : (climb (positions postorder) postorder ret f : Outcome ε Nat) = .returns next) :
    Points start postorder ret b next := by
  obtain ⟨x, here, above⟩ := points
  simp only [Panopticon.Dominator.climb, Outcome.bind_eq_returns, Outcome.unwrap_eq_returns] at moved
  obtain ⟨y, there, d, dom, position⟩ := moved
  rw [here] at there
  cases there
  refine ⟨d, getElem?_positions position, ?_⟩
  by_cases top : x = start
  · subst x
    rw [root] at dom
    cases dom
    exact above
  · exact above.tail ⟨top, dom⟩

theorem moveFinger_cases {fingers next : Nat × Nat}
    (moved : (moveFinger (positions postorder) postorder ret fingers : Outcome ε (Option (Nat × Nat))) =
      .returns (some next)) :
    (fingers.1 < fingers.2 ∧ next.2 = fingers.2 ∧
      (climb (positions postorder) postorder ret fingers.1 : Outcome ε Nat) = .returns next.1) ∨
    (fingers.2 < fingers.1 ∧ next.1 = fingers.1 ∧
      (climb (positions postorder) postorder ret fingers.2 : Outcome ε Nat) = .returns next.2) := by
  unfold moveFinger at moved
  split at moved
  · next less =>
    simp only [Outcome.bind_eq_returns, Outcome.pure_eq, Outcome.returns.injEq, Option.some.injEq] at moved
    obtain ⟨f, found, rfl⟩ := moved
    exact .inl ⟨less, rfl, found⟩
  · split at moved
    · next less =>
      simp only [Outcome.bind_eq_returns, Outcome.pure_eq, Outcome.returns.injEq, Option.some.injEq] at moved
      obtain ⟨f, found, rfl⟩ := moved
      exact .inr ⟨less, rfl, found⟩
    · cases moved

private theorem moveFinger_none {fingers : Nat × Nat}
    (stopped : (moveFinger (positions postorder) postorder ret fingers : Outcome ε (Option (Nat × Nat))) =
      .returns none) : fingers.1 = fingers.2 := by
  unfold moveFinger at stopped
  split at stopped
  · simp at stopped
  · split at stopped
    · simp at stopped
    · omega

private theorem intersect_above {b1 b2 d : Nat} (root : ret[start]? = some start)
    (met : (intersect fuel (positions postorder) postorder ret b1 b2 : Outcome ε Nat) = .returns d) :
    Above start (ret[·]?) b1 d ∧ Above start (ret[·]?) b2 d := by
  simp only [intersect, Outcome.bind_eq_returns, Outcome.unwrap_eq_returns] at met
  obtain ⟨f1, first, f2, second, fingers, moved, here⟩ := met
  obtain ⟨⟨left, right⟩, turn, stopped⟩ := Outcome.repeated_invariant
    (fun fingers : Nat × Nat => Points start postorder ret b1 fingers.1 ∧ Points start postorder ret b2 fingers.2)
    (fun _ fingers next holds moved => by
      obtain ⟨left, right⟩ := holds
      rcases moveFinger_cases moved with ⟨-, same, climbed⟩ | ⟨-, same, climbed⟩
      · exact ⟨left.climb root climbed, same ▸ right⟩
      · exact ⟨same ▸ left, right.climb root climbed⟩)
    ⟨⟨b1, getElem?_positions first, .refl⟩, ⟨b2, getElem?_positions second, .refl⟩⟩ moved
  have same := moveFinger_none stopped
  obtain ⟨x, there, above⟩ := left
  obtain ⟨y, there', above'⟩ := right
  rw [here] at there
  rw [← same, here] at there'
  cases there
  cases there'
  exact ⟨above, above'⟩

/-- The new dominator of a block is an ancestor of all its processed predecessors. -/
theorem newIdom_above (valid : g.Consistent) {b d p : Nat} (root : ret[start]? = some start)
    (computed : (newIdom g fuel (positions postorder) postorder ret b : Outcome ε Nat) = .returns d)
    (edge : g.Adjacent p b) (other : p ≠ b) (known : ret.contains p) : Above start (ret[·]?) p d := by
  simp only [newIdom, Outcome.bind_eq_returns, Outcome.unwrap_eq_returns] at computed
  obtain ⟨pred, listed, first, found, folded⟩ := computed
  have member := (mem_predecessors valid listed).mpr ⟨edge, other⟩
  have meets : ∀ (items : List Nat) (dom last : Nat),
      Outcome.fold (fun dom p => if ret.contains p then
        (intersect fuel (positions postorder) postorder ret p dom : Outcome ε Nat) else return dom) dom items =
        .returns last →
      Above start (ret[·]?) dom last ∧ ∀ q ∈ items, ret.contains q → Above start (ret[·]?) q last := by
    intro items
    induction items with
    | nil =>
      intro dom last folded
      simp only [Outcome.fold, Outcome.returns.injEq] at folded
      subst last
      exact ⟨.refl, by simp⟩
    | cons q items ih =>
      intro dom last folded
      simp only [Outcome.fold, Outcome.bind_eq_returns] at folded
      obtain ⟨next, step, rest⟩ := folded
      obtain ⟨above, others⟩ := ih next last rest
      split at step
      · obtain ⟨left, right⟩ := intersect_above root step
        refine ⟨right.trans above, List.forall_mem_cons.mpr ⟨fun _ => left.trans above, others⟩⟩
      · next unknown =>
        simp only [Outcome.pure_eq, Outcome.returns.injEq] at step
        subst next
        exact ⟨above, List.forall_mem_cons.mpr ⟨fun present => absurd present unknown, others⟩⟩
  obtain ⟨fromFirst, fromOthers⟩ := meets _ _ _ folded
  by_cases same : p = first
  · exact same ▸ fromFirst
  · exact fromOthers p (List.mem_filter.mpr ⟨member, by simpa using same⟩) known

/-- The dominators of a vertex other than itself dominate its entry in the table. -/
def Nearest (g : AdjacencyList N E) (start : Nat) (ret : DominatorTable) : Prop :=
  ∀ v d a : Nat, v ≠ start → ret[v]? = some d → StrictlyDominates g.Adjacent start a v →
    Dominates g.Adjacent start a d

section Nearest
variable (valid : g.Consistent)
  (collected : (TreeIterator.collectPostorder g fuel start : Outcome ε (List Nat)) = .returns postorder)
  (root : ret[start]? = some start) (nearest : Nearest g start ret)
include valid collected root nearest

/-- The lower of two fingers below `a` is not at `a` itself, so moving it stays below `a`. -/
theorem climb_nearest {a f1 f2 next x1 x2 : Nat} (less : f1 < f2)
    (first : (positions postorder)[x1]? = some f1) (second : (positions postorder)[x2]? = some f2)
    (left : Dominates g.Adjacent start a x1) (right : Dominates g.Adjacent start a x2)
    (moved : (climb (positions postorder) postorder ret f1 : Outcome ε Nat) = .returns next) :
    ∃ y, (positions postorder)[y]? = some next ∧ Dominates g.Adjacent start a y := by
  simp only [Panopticon.Dominator.climb, Outcome.bind_eq_returns, Outcome.unwrap_eq_returns] at moved
  obtain ⟨x, here, d, dom, position⟩ := moved
  rw [getElem?_positions first] at here
  cases here
  refine ⟨d, position, ?_⟩
  by_cases top : x1 = start
  · subst x1
    rw [root] at dom
    cases dom
    exact left
  · apply nearest x1 d a top dom ⟨left, ?_⟩
    intro same
    subst a
    have other : x1 ≠ x2 := by
      intro same
      rw [same, second] at first
      have := Option.some.inj first
      omega
    have rising := position_lt_of_strictlyDominates valid collected ⟨right, other⟩ second first
    omega

/-- A common dominator of two vertices dominates the vertex their fingers meet at. -/
theorem intersect_nearest {a b1 b2 d : Nat} (left : Dominates g.Adjacent start a b1)
    (right : Dominates g.Adjacent start a b2)
    (met : (intersect fuel (positions postorder) postorder ret b1 b2 : Outcome ε Nat) = .returns d) :
    Dominates g.Adjacent start a d := by
  simp only [intersect, Outcome.bind_eq_returns, Outcome.unwrap_eq_returns] at met
  obtain ⟨f1, first, f2, second, fingers, moved, here⟩ := met
  let below (f : Nat) := ∃ x, (positions postorder)[x]? = some f ∧ Dominates g.Adjacent start a x
  obtain ⟨⟨⟨x, position, above⟩, -⟩, -⟩ := Outcome.repeated_invariant
    (fun fingers : Nat × Nat => below fingers.1 ∧ below fingers.2)
    (fun _ fingers next holds moved => by
      obtain ⟨⟨x1, one, left⟩, ⟨x2, two, right⟩⟩ := holds
      rcases moveFinger_cases moved with ⟨less, same, climbed⟩ | ⟨less, same, climbed⟩
      · exact ⟨climb_nearest valid collected root nearest less one two left right climbed, x2, same ▸ two, right⟩
      · exact ⟨⟨x1, same ▸ one, left⟩, climb_nearest valid collected root nearest less two one right left climbed⟩)
    ⟨⟨b1, first, left⟩, ⟨b2, second, right⟩⟩ moved
  rw [getElem?_positions position] at here
  cases here
  exact above

private theorem newIdom_nearest {a b d : Nat} (strict : StrictlyDominates g.Adjacent start a b)
    (computed : (newIdom g fuel (positions postorder) postorder ret b : Outcome ε Nat) = .returns d) :
    Dominates g.Adjacent start a d := by
  simp only [newIdom, Outcome.bind_eq_returns, Outcome.unwrap_eq_returns] at computed
  obtain ⟨pred, listed, first, found, folded⟩ := computed
  have dominated : ∀ p ∈ pred, Dominates g.Adjacent start a p :=
    fun p member => strict.pred ((mem_predecessors valid listed).mp member).1
  refine Outcome.fold_invariant (fun dom => Dominates g.Adjacent start a dom) ?_
    (dominated first (List.mem_of_find?_eq_some found)) folded
  intro dom p next member holds met
  split at met
  · exact intersect_nearest valid collected root nearest (dominated p (List.mem_of_mem_filter member)) holds met
  · simp only [Outcome.pure_eq, Outcome.returns.injEq] at met
    exact met ▸ holds

theorem Nearest.insert {b d : Nat} (computed : (newIdom g fuel (positions postorder) postorder ret b : Outcome ε Nat) = .returns d) :
    Nearest g start (ret.insert b d) := by
  intro v e a inner found strict
  simp only [Std.ExtTreeMap.getElem?_insert, Nat.compare_eq_eq] at found
  split at found
  · next same =>
    cases found
    exact newIdom_nearest valid collected root nearest (same ▸ strict) computed
  · exact nearest v e a inner found strict

end Nearest

theorem Nearest.initial (g : AdjacencyList N E) (start : Nat) : Nearest g start ((∅ : DominatorTable).insert start start) := by
  intro v d a inner entry _
  simp only [Std.ExtTreeMap.getElem?_insert, Nat.compare_eq_eq, if_neg (Ne.symm inner)] at entry
  simp at entry

end Climbing

section Fixpoint
variable {fuel start : Nat} {postorder : List Nat} {ret final : DominatorTable}

theorem updateIdom_cases {pass next : DominatorTable × Bool} {b : Nat}
    (updated : (updateIdom g fuel (positions postorder) postorder pass b : Outcome ε _) = .returns next) :
    ∃ d, (newIdom g fuel (positions postorder) postorder pass.1 b : Outcome ε Nat) = .returns d ∧
      ((pass.1[b]? = some d ∧ next = pass) ∨ next = (pass.1.insert b d, false)) := by
  simp only [updateIdom, Outcome.bind_eq_returns] at updated
  obtain ⟨d, computed, step⟩ := updated
  refine ⟨d, computed, ?_⟩
  split at step
  · next same => exact .inl ⟨same, by simpa using step.symm⟩
  · exact .inr (by simpa using step.symm)

/-- A pass that ends with its flag up has changed nothing and confirmed every entry. -/
theorem fold_unchanged {pass : DominatorTable × Bool} {blocks : List Nat}
    (folded : Outcome.fold (updateIdom g fuel (positions postorder) postorder) pass blocks =
      (.returns (final, true) : Outcome ε _)) :
    pass = (final, true) ∧ ∀ b ∈ blocks, ∃ d,
      (newIdom g fuel (positions postorder) postorder final b : Outcome ε Nat) = .returns d ∧ final[b]? = some d := by
  induction blocks generalizing pass with
  | nil =>
    simp only [Outcome.fold, Outcome.returns.injEq] at folded
    exact ⟨folded, by simp⟩
  | cons b blocks ih =>
    simp only [Outcome.fold, Outcome.bind_eq_returns] at folded
    obtain ⟨next, updated, rest⟩ := folded
    obtain ⟨same, confirmed⟩ := ih rest
    obtain ⟨d, computed, ⟨entry, unchanged⟩ | changed⟩ := updateIdom_cases updated
    · rw [unchanged] at same
      subst pass
      exact ⟨rfl, List.forall_mem_cons.mpr ⟨⟨d, computed, entry⟩, confirmed⟩⟩
    · rw [changed] at same
      cases same

private theorem passIdom_invariant (invariant : DominatorTable → Prop)
    (preserved : ∀ (ret : DominatorTable) (b d : Nat), b ∈ postorder → b ≠ start → invariant ret →
      (newIdom g fuel (positions postorder) postorder ret b : Outcome ε Nat) = .returns d → invariant (ret.insert b d))
    (holds : invariant ret)
    (passed : (passIdom g fuel start (positions postorder) postorder ret : Outcome ε _) = .returns (some final)) :
    invariant final := by
  simp only [passIdom, Outcome.bind_eq_returns, Outcome.pure_eq, Outcome.returns.injEq] at passed
  obtain ⟨⟨last, flag⟩, folded, answer⟩ := passed
  have kept := Outcome.fold_invariant (fun pass : DominatorTable × Bool => invariant pass.1)
    (fun pass b next member holds updated => by
      simp only [List.mem_filter, List.mem_reverse, bne_iff_ne] at member
      obtain ⟨d, computed, ⟨-, rfl⟩ | rfl⟩ := updateIdom_cases updated
      · exact holds
      · exact preserved pass.1 b d member.1 member.2 holds computed)
    (show invariant (ret, true).1 from holds) folded
  cases flag with
  | true => cases answer
  | false =>
    simp only [Bool.false_eq_true, ite_false, Option.some.injEq] at answer
    exact answer ▸ kept

/-- Entries of the table: `start` and blocks of the postorder. -/
structure Covered (start : Nat) (postorder : List Nat) (ret : DominatorTable) : Prop where
  root : ret[start]? = some start
  keys : ∀ v, ret.contains v → v = start ∨ v ∈ postorder

theorem Covered.insert (covered : Covered start postorder ret) {b d : Nat} (member : b ∈ postorder) (inner : b ≠ start) :
    Covered start postorder (ret.insert b d) := by
  constructor
  · simp only [Std.ExtTreeMap.getElem?_insert, Nat.compare_eq_eq, if_neg inner]
    exact covered.root
  · intro v known
    simp only [Std.ExtTreeMap.contains_insert, Bool.or_eq_true, beq_iff_eq, Nat.compare_eq_eq] at known
    rcases known with rfl | known
    · exact .inr member
    · exact covered.keys v known

/-- The result of the fixpoint iteration, with what its last pass has confirmed. -/
theorem immediateDominator_fixpoint (invariant : DominatorTable → Prop)
    (first : invariant ((∅ : DominatorTable).insert start start))
    (preserved : ∀ (order : List Nat) (ret : DominatorTable) (b d : Nat),
      (TreeIterator.collectPostorder g fuel start : Outcome ε _) = .returns order →
      b ∈ order → b ≠ start → Covered start order ret → invariant ret →
      (newIdom g fuel (positions order) order ret b : Outcome ε Nat) = .returns d → invariant (ret.insert b d))
    (finished : (immediateDominator g fuel start : Outcome ε _) = .returns final) :
    ∃ order, (TreeIterator.collectPostorder g fuel start : Outcome ε _) = .returns order ∧
      Covered start order final ∧ invariant final ∧
      ∀ b ∈ order, b ≠ start → ∃ d, final[b]? = some d ∧
        (newIdom g fuel (positions order) order final b : Outcome ε Nat) = .returns d := by
  simp only [immediateDominator, Outcome.bind_eq_returns] at finished
  obtain ⟨order, collected, repeated⟩ := finished
  have root : Covered start order ((∅ : DominatorTable).insert start start) := by
    constructor
    · simp
    · intro v known
      simp only [Std.ExtTreeMap.contains_insert, Std.ExtTreeMap.contains_empty, Bool.or_false, beq_iff_eq,
        Nat.compare_eq_eq] at known
      exact .inl known.symm
  obtain ⟨⟨covered, holds⟩, turn, stopped⟩ := Outcome.repeated_invariant
    (fun ret => Covered start order ret ∧ invariant ret)
    (fun _ ret next holds passed => passIdom_invariant (fun ret => Covered start order ret ∧ invariant ret)
      (fun ret b d member inner holds computed =>
        ⟨holds.1.insert member inner, preserved order ret b d collected member inner holds.1 holds.2 computed⟩)
      holds passed)
    ⟨root, first⟩ repeated
  simp only [passIdom, Outcome.bind_eq_returns, Outcome.pure_eq, Outcome.returns.injEq] at stopped
  obtain ⟨⟨last, flag⟩, folded, answer⟩ := stopped
  cases flag with
  | false => cases answer
  | true =>
    obtain ⟨same, confirmed⟩ := fold_unchanged folded
    cases same
    refine ⟨order, collected, covered, holds, ?_⟩
    intro b member inner
    obtain ⟨d, computed, entry⟩ := confirmed b (by simpa using ⟨member, inner⟩)
    exact ⟨d, entry, computed⟩

/-- The table as the conversion uses it, once it is known to have an entry for every vertex. -/
structure DominatorTree (g : AdjacencyList N E) (start : Nat) (idom : DominatorTable) : Prop where
  root : idom[start]? = some start
  keys : ∀ v, idom.contains v ↔ (g.vertexLabel v).isSome
  reachable : ∀ v, idom.contains v → Reachable g.Adjacent start v
  settled : Settled g.Adjacent start (idom[·]?)
  nearest : Nearest g start idom

theorem labelled_of_reachable (valid : g.Consistent) (entry : (g.vertexLabel start).isSome) {v : Nat}
    (reachable : Reachable g.Adjacent start v) : (g.vertexLabel v).isSome := by
  obtain ⟨walk, trace⟩ := reachable
  cases trace with
  | root => exact entry
  | step _ link =>
    obtain ⟨e, stored⟩ := link
    exact (valid.ends _ _ _ stored).2

/-- A table with as many entries as there are vertices, all of them vertices, has an entry for each. -/
theorem contains_of_size {idom : DominatorTable} (size : idom.size = g.numVertices)
    (inside : ∀ v, idom.contains v → (g.vertexLabel v).isSome) {v : Nat} (labelled : (g.vertexLabel v).isSome) :
    idom.contains v := by
  have subset : idom.keys ⊆ g.vertexLabels.keys := by
    intro w member
    have known := inside w (by simpa using member)
    simpa [vertexLabel] using known
  have perm : idom.keys.Perm g.vertexLabels.keys := by
    apply (List.subperm_of_subset Std.ExtTreeMap.nodup_keys subset).perm_of_length_le
    rw [Std.ExtTreeMap.length_keys, Std.ExtTreeMap.length_keys, size]
    exact Nat.le_refl _
  have member : v ∈ g.vertexLabels.keys := by simpa [vertexLabel] using labelled
  simpa using perm.mem_iff.mpr member

theorem immediateDominator_tree (valid : g.Consistent) (entry : (g.vertexLabel start).isSome)
    {idom : DominatorTable} (finished : (immediateDominator g fuel start : Outcome ε _) = .returns idom)
    (size : idom.size = g.numVertices) : DominatorTree g start idom := by
  obtain ⟨order, collected, covered, nearest, confirmed⟩ := immediateDominator_fixpoint (Nearest g start) (.initial g start)
    (fun order ret b d collected member inner covered nearest computed =>
      Nearest.insert valid collected covered.root nearest computed) finished
  have reachable : ∀ v, idom.contains v → Reachable g.Adjacent start v := by
    intro v known
    rcases covered.keys v known with rfl | member
    · exact ⟨_, .root⟩
    · exact reachable_of_postorder valid collected member
  have inside : ∀ v, idom.contains v → (g.vertexLabel v).isSome :=
    fun v known => labelled_of_reachable valid entry (reachable v known)
  refine ⟨covered.root, fun v => ⟨inside v, contains_of_size size inside⟩, reachable, ?_, nearest⟩
  intro p b _ edge other inner
  obtain ⟨e, stored⟩ := edge
  have ends := valid.ends e p b stored
  have member : b ∈ order := (covered.keys b (contains_of_size size inside ends.2)).resolve_left inner
  obtain ⟨d, here, computed⟩ := confirmed b member inner
  exact ⟨d, here, newIdom_above valid covered.root computed ⟨e, stored⟩ other (contains_of_size size inside ends.1)⟩

namespace DominatorTree
variable {idom : DominatorTable} (tree : DominatorTree g start idom)
include tree

theorem lineage {v : Nat} (labelled : (g.vertexLabel v).isSome) :
    ∃ ancestors, Lineage start (idom[·]?) v ancestors :=
  tree.settled.lineage (tree.reachable v ((tree.keys v).mpr labelled))

theorem dominates {v a : Nat} {ancestors : List Nat} (lineage : Lineage start (idom[·]?) v ancestors)
    (member : a ∈ ancestors) : Dominates g.Adjacent start a v :=
  tree.settled.dominates (lineage.mem_iff.mp member)

theorem mem_lineage_iff {v a : Nat} {ancestors : List Nat} (lineage : Lineage start (idom[·]?) v ancestors) :
    a ∈ ancestors ↔ Dominates g.Adjacent start a v := by
  refine ⟨tree.dominates lineage, ?_⟩
  intro dominates
  induction lineage with
  | root => exact dominates _ .root
  | @child v d ancestors inner found lineage ih =>
    by_cases same : a = v
    · exact same ▸ List.mem_cons_self
    · exact List.mem_cons_of_mem _ (ih (tree.nearest v d a inner found ⟨dominates, same⟩))

theorem parent {v d : Nat} (labelled : (g.vertexLabel v).isSome) (inner : v ≠ start) (found : idom[v]? = some d) :
    ∃ above, Lineage start (idom[·]?) d above ∧ Lineage start (idom[·]?) v (v :: above) ∧
      ∀ a, a ∈ above ↔ StrictlyDominates g.Adjacent start a v := by
  obtain ⟨ancestors, lineage⟩ := tree.lineage labelled
  cases lineage with
  | root => exact absurd rfl inner
  | @child _ d' above _ entry lineage =>
    rw [found] at entry
    cases entry
    have whole : Lineage start (idom[·]?) v (v :: above) := .child inner found lineage
    refine ⟨above, lineage, whole, fun a => ⟨?_, ?_⟩⟩
    · intro member
      refine ⟨tree.dominates whole (List.mem_cons_of_mem _ member), ?_⟩
      intro same
      exact lineage.notMem_parent inner found (same ▸ member)
    · intro strict
      exact (List.mem_cons.mp ((tree.mem_lineage_iff whole).mpr strict.1)).resolve_left strict.2

end DominatorTree

end Fixpoint

section Congruence
variable {N' E' : Type} {g' : AdjacencyList N' E'} (edges : g'.edges = g.edges) (outEdges : g'.outEdges = g.outEdges)
  (inEdges : g'.inEdges = g.inEdges)

include edges in
private theorem firstUnseen_congr (seen : Std.ExtTreeSet Nat) (out : List Nat) :
    (TreeIterator.firstUnseen g' seen out : Outcome ε _) = TreeIterator.firstUnseen g seen out := by
  induction out with
  | nil => rfl
  | cons e out ih => simp only [TreeIterator.firstUnseen, target, edges, ih]

include edges outEdges in
private theorem collectPostorder_congr (fuel start : Nat) :
    (TreeIterator.collectPostorder g' fuel start : Outcome ε _) = TreeIterator.collectPostorder g fuel start := by
  have step : (TreeIterator.nextPostorder g' : TreeIterator → Outcome ε _) = TreeIterator.nextPostorder g := by
    funext it
    simp only [TreeIterator.nextPostorder, outgoing, outEdges, firstUnseen_congr edges]
  simp only [TreeIterator.collectPostorder, step]

include edges inEdges in
private theorem predecessors_congr : (predecessors g' : Nat → Outcome ε _) = predecessors g := by
  funext b
  simp only [predecessors, incoming, inEdges, source, edges]

include edges outEdges inEdges in
theorem immediateDominator_congr (fuel start : Nat) :
    (immediateDominator g' fuel start : Outcome ε _) = immediateDominator g fuel start := by
  have pass : ∀ postorder, (passIdom g' fuel start (positions postorder) postorder : DominatorTable → Outcome ε _) =
      passIdom g fuel start (positions postorder) postorder := by
    intro postorder
    have update : (updateIdom g' fuel (positions postorder) postorder : _ → _ → Outcome ε _) =
        updateIdom g fuel (positions postorder) postorder := by
      funext state b
      simp only [updateIdom, newIdom, predecessors_congr edges inEdges]
    funext ret
    simp only [passIdom, update]
  simp only [immediateDominator, collectPostorder_congr edges outEdges, pass]

end Congruence

end Panopticon.Proofs.Dominator
