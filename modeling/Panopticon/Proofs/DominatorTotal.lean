import Panopticon.Proofs.Dominator

/-! The iteration for immediate dominators ends, without a failed lookup, with exact
dominators. A pass carries what is known over one more retreating edge. -/

namespace Panopticon.Proofs.DominatorTotal
open Library Panopticon.Dominator Proofs.Dominator AdjacencyList

variable {N E ε : Type} {g : AdjacencyList N E} {start : Nat}

/-- What has been found is produced or on the way down, and what has been produced is used up. -/
structure Explored (g : AdjacencyList N E) (start : Nat) (it : TreeIterator) : Prop where
  known : ∀ v ∈ it.seen, v ∈ it.output ∨ v ∈ it.position :: it.stack
  closed : ∀ v ∈ it.output, ∀ w, g.Adjacent v w → w ∈ it.seen
  found : ∀ v ∈ it.output ++ it.position :: it.stack, v ≠ start → v ∈ it.seen
  once : ((it.output ++ it.position :: it.stack).filter (· != start)).Nodup

theorem Explored.next (valid : g.Consistent) {it next : TreeIterator} (explored : Explored g start it)
    (step : (TreeIterator.nextPostorder g it : Outcome ε (Option TreeIterator)) = .returns (some next)) :
    Explored g start next := by
  rcases nextPostorder_cases valid step with ⟨vx, edge, unseen, rfl⟩ | ⟨parent, stack, same, drained, rfl⟩
  · have perm : (it.output ++ vx :: it.position :: it.stack).Perm (vx :: (it.output ++ it.position :: it.stack)) :=
      List.perm_middle
    refine ⟨?_, ?_, ?_, ?_⟩
    · intro v member
      simp only [Std.ExtTreeSet.mem_insert, Nat.compare_eq_eq] at member
      rcases member with rfl | member
      · exact .inr List.mem_cons_self
      · exact (explored.known v member).imp_right (List.mem_cons_of_mem _)
    · intro v member w link
      simp only [Std.ExtTreeSet.mem_insert]
      exact .inr (explored.closed v member w link)
    · intro v member other
      simp only [Std.ExtTreeSet.mem_insert, Nat.compare_eq_eq]
      rcases List.mem_cons.mp (perm.mem_iff.mp member) with rfl | member
      · exact .inl rfl
      · exact .inr (explored.found v member other)
    · rw [(perm.filter _).nodup_iff, List.filter_cons]
      split
      · next other =>
        refine List.nodup_cons.mpr ⟨?_, explored.once⟩
        intro member
        exact unseen (explored.found vx (List.mem_of_mem_filter member) (by simpa using other))
      · exact explored.once
  · have whole : (it.output ++ [it.position]) ++ parent :: stack = it.output ++ it.position :: it.stack := by
      rw [same, List.append_assoc]
      rfl
    refine ⟨?_, ?_, ?_, ?_⟩
    · intro v member
      have inside : v ∈ it.output ++ it.position :: it.stack := List.mem_append.mpr (explored.known v member)
      rw [← whole] at inside
      exact List.mem_append.mp inside
    · intro v member w link
      rcases List.mem_append.mp member with member | member
      · exact explored.closed v member w link
      · rw [List.mem_singleton.mp member] at link
        exact drained w link
    · intro v member
      rw [whole] at member
      exact explored.found v member
    · rw [whole]
      exact explored.once

theorem Explored.initial (g : AdjacencyList N E) (start : Nat) : Explored g start (TreeIterator.postorder start) := by
  constructor <;> simp [TreeIterator.postorder]

section Postorder
variable (valid : g.Consistent) (entry : (g.vertexLabel start).isSome)
include valid

/-- A finished postorder lists what is reachable, and all but `start` once. -/
theorem collectPostorder_exact {fuel : Nat} {order : List Nat}
    (collected : (TreeIterator.collectPostorder g fuel start : Outcome ε (List Nat)) = .returns order) :
    (∀ v, v ∈ order ↔ Reachable g.Adjacent start v) ∧ (order.filter (· != start)).Nodup := by
  have root := start_mem_postorder valid collected
  have inside := fun v => reachable_of_postorder (v := v) valid collected
  simp only [TreeIterator.collectPostorder, Outcome.bind_eq_returns, Outcome.pure_eq, Outcome.returns.injEq] at collected
  obtain ⟨it, finished, rfl⟩ := collected
  obtain ⟨⟨explored, nested⟩, turn, stopped⟩ := Outcome.repeated_invariant
    (fun it => Explored g start it ∧ Nested g start it)
    (fun _ _ _ holds step => ⟨holds.1.next valid step, holds.2.next valid step⟩)
    ⟨.initial g start, .initial g start⟩ finished
  have empty := nextPostorder_none stopped
  obtain ⟨position, -⟩ := nested.drained empty
  refine ⟨fun v => ⟨inside v, ?_⟩, ?_⟩
  · intro reachable
    obtain ⟨walk, trace⟩ := reachable
    induction trace with
    | root => exact root
    | @step u v walk trace link ih =>
      rcases explored.known v (explored.closed u ih v link) with produced | here
      · exact produced
      · rw [empty, List.mem_singleton, position] at here
        exact here ▸ root
  · have once := explored.once
    rw [List.filter_append] at once
    exact once.of_append_left

theorem firstUnseen_returns {v : Nat} {out : List Nat} (list : g.outEdges[v]? = some out) (seen : Std.ExtTreeSet Nat) :
    ∃ found, (TreeIterator.firstUnseen g seen out : Outcome ε (Option Nat)) = .returns found := by
  have targets : ∀ e ∈ out, ∃ w, g.target e = some w := by
    intro e member
    obtain ⟨w, stored⟩ := ((valid.outList v out list).2 e).mp member
    exact ⟨w, by simp [target, stored]⟩
  clear list
  induction out with
  | nil => exact ⟨none, rfl⟩
  | cons e out ih =>
    obtain ⟨w, found⟩ := targets e List.mem_cons_self
    obtain ⟨rest, returned⟩ := ih (fun d member => targets d (List.mem_cons_of_mem _ member))
    by_cases old : w ∈ seen
    · exact ⟨rest, by simp [TreeIterator.firstUnseen, found, Outcome.unwrap, old, returned]⟩
    · exact ⟨some w, by simp [TreeIterator.firstUnseen, found, Outcome.unwrap, old]⟩

private theorem nextPostorder_returns {it : TreeIterator} (labelled : (g.vertexLabel it.position).isSome) :
    ∃ answer, (TreeIterator.nextPostorder g it : Outcome ε (Option TreeIterator)) = .returns answer := by
  obtain ⟨out, list⟩ := Option.isSome_iff_exists.mp ((valid.outKeys it.position).mpr labelled)
  obtain ⟨found, searched⟩ := firstUnseen_returns (ε := ε) valid list it.seen
  simp only [TreeIterator.nextPostorder, outgoing, list, Outcome.unwrap, Outcome.returns_bind, searched]
  cases found with
  | some vx => exact ⟨_, rfl⟩
  | none =>
    cases it.stack with
    | nil => exact ⟨_, rfl⟩
    | cons parent stack => exact ⟨_, rfl⟩

include entry

theorem seen_size {seen : Std.ExtTreeSet Nat} (inside : ∀ v ∈ seen, Reachable g.Adjacent start v) :
    seen.size ≤ g.numVertices :=
  size_le_numVertices fun v member => labelled_of_reachable valid entry (inside v member)

private theorem nextPostorder_measure {it next : TreeIterator} (visited : Visited g start it)
    (inside : ∀ v ∈ it.seen, Reachable g.Adjacent start v)
    (step : (TreeIterator.nextPostorder g it : Outcome ε (Option TreeIterator)) = .returns (some next)) :
    (∀ v ∈ next.seen, Reachable g.Adjacent start v) ∧
      2 * (g.numVertices - next.seen.size) + next.stack.length < 2 * (g.numVertices - it.seen.size) + it.stack.length := by
  rcases nextPostorder_cases valid step with ⟨vx, edge, unseen, rfl⟩ | ⟨parent, stack, same, -, rfl⟩
  · have inside' : ∀ v ∈ it.seen.insert vx, Reachable g.Adjacent start v := by
      intro v member
      simp only [Std.ExtTreeSet.mem_insert, Nat.compare_eq_eq] at member
      rcases member with rfl | member
      · exact visited.position.step edge
      · exact inside v member
    have size := seen_size valid entry inside'
    refine ⟨inside', ?_⟩
    have fresh : ¬ it.seen.contains vx = true := by simpa using unseen
    simp only [Std.ExtTreeSet.size_insert, if_neg fresh, List.length_cons] at size ⊢
    omega
  · refine ⟨inside, ?_⟩
    simp only [same, List.length_cons]
    omega

private theorem collectPostorder_returns {fuel : Nat} (enough : 2 * g.numVertices + 1 < fuel) :
    ∃ order, (TreeIterator.collectPostorder g fuel start : Outcome ε (List Nat)) = .returns order := by
  obtain ⟨final, finished, -⟩ := Outcome.repeated_returns (fun _ => TreeIterator.nextPostorder (ε := ε) g)
    (2 * g.numVertices + 1)
    (fun turn it => Visited g start it ∧ (∀ v ∈ it.seen, Reachable g.Adjacent start v) ∧
      turn + (2 * (g.numVertices - it.seen.size) + it.stack.length) ≤ 2 * g.numVertices + 1)
    (fun turn it holds => by
      obtain ⟨visited, inside, measure⟩ := holds
      obtain ⟨answer, returned⟩ := nextPostorder_returns (ε := ε) valid (labelled_of_reachable valid entry visited.position)
      cases answer with
      | none => exact .inl returned
      | some next =>
        obtain ⟨inside', less⟩ := nextPostorder_measure valid entry visited inside returned
        exact .inr ⟨next, returned, ⟨visited.next valid returned, inside', by omega⟩, by omega⟩)
    fuel _ ⟨.initial g start, by simp [TreeIterator.postorder], by simp [TreeIterator.postorder]⟩ (Nat.zero_le _) enough
  exact ⟨final.output, by simp [TreeIterator.collectPostorder, finished]⟩

theorem exists_collectPostorder : ∃ order, ∀ fuel, 2 * g.numVertices + 1 < fuel →
    (TreeIterator.collectPostorder g fuel start : Outcome ε (List Nat)) = .returns order := by
  obtain ⟨order, collected⟩ := collectPostorder_returns (ε := ε) valid entry (Nat.lt_succ_self (2 * g.numVertices + 1))
  refine ⟨order, fun fuel large => ?_⟩
  simp only [TreeIterator.collectPostorder, Outcome.bind_eq_returns, Outcome.pure_eq, Outcome.returns.injEq] at collected ⊢
  obtain ⟨it, finished, same⟩ := collected
  exact ⟨it, Outcome.repeated_mono finished large, same⟩

end Postorder

theorem predecessors_returns (valid : g.Consistent) {b : Nat} (labelled : (g.vertexLabel b).isSome) :
    ∃ pred, (predecessors g b : Outcome ε (List Nat)) = .returns pred := by
  obtain ⟨into, list⟩ := Option.isSome_iff_exists.mp ((valid.inKeys b).mpr labelled)
  have source : ∀ e ∈ into, ∃ u, (.unwrap (g.source e) : Outcome ε Nat) = .returns u := by
    intro e member
    obtain ⟨u, stored⟩ := ((valid.inList b into list).2 e).mp member
    exact ⟨u, by simp [source, stored]⟩
  obtain ⟨sources, found⟩ := Outcome.each_returns source
  refine ⟨sortDedup (sources.filter (· != b)), ?_⟩
  simp only [predecessors, incoming, list, Outcome.unwrap_eq_returns.mpr rfl, Outcome.returns_bind, found, Outcome.pure_eq]

section Rising
variable {fuel : Nat} {order : List Nat} {ret : DominatorTable} (valid : g.Consistent)
  (collected : (TreeIterator.collectPostorder g fuel start : Outcome ε (List Nat)) = .returns order)

/-- The parents in a table are listed later in the postorder. -/
structure Rising (start : Nat) (order : List Nat) (ret : DominatorTable) : Prop where
  root : ret[start]? = some start
  rising : ∀ v d : Nat, v ≠ start → ret[v]? = some d → ret.contains d ∧
    ∃ i j : Nat, (positions order)[v]? = some i ∧ (positions order)[d]? = some j ∧ i < j

theorem Rising.contains_root (rising : Rising start order ret) : ret.contains start := by
  rw [Std.ExtTreeMap.contains_eq_isSome_getElem?, rising.root]
  rfl

theorem Rising.above (rising : Rising start order ret) {v a i : Nat} (position : (positions order)[v]? = some i)
    (above : Above start (ret[·]?) v a) : ∃ j, (positions order)[a]? = some j ∧ i ≤ j ∧ (a ≠ v → i < j) := by
  induction above with
  | refl => exact ⟨i, position, Nat.le_refl i, fun other => absurd rfl other⟩
  | @tail b c _ up ih =>
    obtain ⟨j, there, below, -⟩ := ih
    obtain ⟨-, j', k, there', position', less⟩ := rising.rising b c up.1 up.2
    rw [there] at there'
    cases there'
    exact ⟨k, position', by omega, fun _ => by omega⟩

theorem Rising.contains_above (rising : Rising start order ret) {v a : Nat} (known : ret.contains v)
    (above : Above start (ret[·]?) v a) : ret.contains a := by
  induction above with
  | refl => exact known
  | tail _ up _ => exact (rising.rising _ _ up.1 up.2).1

theorem Rising.insert (rising : Rising start order ret) {b d i j : Nat} (inner : b ≠ start) (known : ret.contains d)
    (position : (positions order)[b]? = some i) (position' : (positions order)[d]? = some j) (less : i < j) :
    Rising start order (ret.insert b d) := by
  refine ⟨?_, ?_⟩
  · simp only [Std.ExtTreeMap.getElem?_insert, Nat.compare_eq_eq, if_neg inner]
    exact rising.root
  · intro v e other found
    simp only [Std.ExtTreeMap.getElem?_insert, Nat.compare_eq_eq] at found
    simp only [Std.ExtTreeMap.contains_insert, Bool.or_eq_true, beq_iff_eq, Nat.compare_eq_eq]
    split at found
    · next same =>
      cases found
      subst v
      exact ⟨.inr known, i, j, position, position', less⟩
    · obtain ⟨known', positions⟩ := rising.rising v e other found
      exact ⟨.inr known', positions⟩

theorem position_lt {v i : Nat} (found : (positions order)[v]? = some i) : i < order.length :=
  (List.getElem?_eq_some_iff.mp (getElem?_positions found)).1

include valid collected

/-- `start` has the last position. -/
theorem position_start {i v : Nat} (found : (positions order)[v]? = some i) :
    ∃ last, (positions order)[start]? = some last ∧ i ≤ last := by
  obtain ⟨⟨before, rfl⟩, -⟩ := collectPostorder_nested valid collected
  refine ⟨before.length, by simp [positions_concat], ?_⟩
  have inside := position_lt found
  simp only [List.length_append, List.length_singleton] at inside
  omega

theorem climb_returns (rising : Rising start order ret) {x y f f' : Nat} (known : ret.contains x)
    (position : (positions order)[x]? = some f) (other : (positions order)[y]? = some f') (less : f < f') :
    ∃ d next, (climb (positions order) order ret f : Outcome ε Nat) = .returns next ∧ (positions order)[d]? = some next ∧
      ret.contains d ∧ f < next := by
  have inner : x ≠ start := by
    intro same
    obtain ⟨last, there, below⟩ := position_start valid collected other
    rw [← same, position] at there
    cases there
    omega
  obtain ⟨d, found⟩ := Option.isSome_iff_exists.mp (show (ret[x]?).isSome by simpa using known)
  obtain ⟨known', i, j, here, there, step⟩ := rising.rising x d inner found
  rw [position] at here
  cases here
  refine ⟨d, j, ?_, there, known', step⟩
  simp [climb, getElem?_positions position, found, there, Outcome.unwrap]

private theorem intersect_returns (rising : Rising start order ret) {b1 b2 enough : Nat} (bound : 2 * order.length < enough)
    (first : ret.contains b1) (second : ret.contains b2) (inside1 : b1 ∈ order) (inside2 : b2 ∈ order) :
    ∃ d, (intersect enough (positions order) order ret b1 b2 : Outcome ε Nat) = .returns d ∧ ret.contains d ∧ d ∈ order := by
  obtain ⟨f1, position1⟩ := positions_of_mem inside1
  obtain ⟨f2, position2⟩ := positions_of_mem inside2
  let points (f : Nat) := ∃ x, (positions order)[x]? = some f ∧ ret.contains x
  have progress : ∀ (turn : Nat) (fingers : Nat × Nat), (points fingers.1 ∧ points fingers.2 ∧
      turn + (order.length - fingers.1) + (order.length - fingers.2) ≤ 2 * order.length) →
      (moveFinger (positions order) order ret fingers : Outcome ε _) = .returns none ∨
      ∃ next, (moveFinger (positions order) order ret fingers : Outcome ε _) = .returns (some next) ∧
        (points next.1 ∧ points next.2 ∧
          turn + 1 + (order.length - next.1) + (order.length - next.2) ≤ 2 * order.length) ∧ turn < 2 * order.length := by
    intro turn fingers holds
    obtain ⟨⟨x, left, knownX⟩, ⟨y, right, knownY⟩, measure⟩ := holds
    have insideX := position_lt left
    have insideY := position_lt right
    rcases Nat.lt_trichotomy fingers.1 fingers.2 with less | same | less
    · obtain ⟨d, next, climbed, position, known, step⟩ := climb_returns (ε := ε) valid collected rising knownX left right less
      refine .inr ⟨(next, fingers.2), ?_, ⟨⟨d, position, known⟩, ⟨y, right, knownY⟩, ?_⟩, by omega⟩
      · simp [moveFinger, less, climbed]
      · simp only
        omega
    · exact .inl (by simp [moveFinger, same])
    · obtain ⟨d, next, climbed, position, known, step⟩ := climb_returns (ε := ε) valid collected rising knownY right left less
      refine .inr ⟨(fingers.1, next), ?_, ⟨⟨x, left, knownX⟩, ⟨d, position, known⟩, ?_⟩, by omega⟩
      · simp [moveFinger, Nat.not_lt.mpr (Nat.le_of_lt less), less, climbed]
      · simp only
        omega
  obtain ⟨last, moved, -, ⟨⟨x, here, known⟩, -⟩, -⟩ := Outcome.repeated_returns _ (2 * order.length) _ progress
    enough (f1, f2) ⟨⟨b1, position1, first⟩, ⟨b2, position2, second⟩, by simp only; omega⟩ (Nat.zero_le _) bound
  have entry := getElem?_positions here
  exact ⟨x, by simp [intersect, position1, position2, Outcome.unwrap, moved, entry], known, List.mem_of_getElem? entry⟩

/-- A block with a processed predecessor gets a parent, and a later one has a parent after it. -/
theorem newIdom_returns (rising : Rising start order ret) {b u i j enough : Nat} (bound : 2 * order.length < enough)
    (covered : ∀ v, ret.contains v → v ∈ order) (edge : g.Adjacent u b) (known : ret.contains u)
    (position : (positions order)[b]? = some i) (above : (positions order)[u]? = some j) (less : i < j) :
    ∃ d k, (newIdom g enough (positions order) order ret b : Outcome ε Nat) = .returns d ∧ ret.contains d ∧
      (positions order)[d]? = some k ∧ i < k := by
  obtain ⟨e, stored⟩ := edge
  obtain ⟨pred, listed⟩ := predecessors_returns (ε := ε) valid (valid.ends e u b stored).2
  have other : u ≠ b := by
    intro same
    rw [same, position] at above
    cases above
    omega
  have member := (mem_predecessors valid listed).mpr ⟨⟨e, stored⟩, other⟩
  obtain ⟨first, found⟩ : ∃ first, pred.find? ret.contains = some first :=
    Option.isSome_iff_exists.mp (List.find?_isSome.mpr ⟨u, member, known⟩)
  have knownFirst : ret.contains first = true := List.find?_some found
  obtain ⟨d, folded, knownD⟩ := Outcome.fold_returns (f := fun dom p => if ret.contains p then
      (intersect enough (positions order) order ret p dom : Outcome ε Nat) else return dom)
    (fun _ dom => ret.contains dom = true)
    (fun p rest dom holds => by
      by_cases processed : ret.contains p
      · obtain ⟨d, met, knownD, -⟩ := intersect_returns (ε := ε) valid collected rising bound processed holds
          (covered p processed) (covered dom holds)
        exact ⟨d, by simp only [processed, ite_true, met], knownD⟩
      · exact ⟨dom, by simp [processed], holds⟩)
    (pred.filter (· != first)) first knownFirst
  have computed : (newIdom g enough (positions order) order ret b : Outcome ε Nat) = .returns d := by
    simp only [newIdom, listed, found, Outcome.unwrap, Outcome.returns_bind, folded]
  have up := newIdom_above valid rising.root computed ⟨e, stored⟩ other known
  obtain ⟨k, there, below, -⟩ := rising.above above up
  exact ⟨d, k, computed, knownD, there, by omega⟩

end Rising

section Passes
variable {fuel : Nat} {order : List Nat}

def rank (order : List Nat) (v : Nat) : Nat := (positions order)[v]?.getD 0

/-- The steps of a walk (last vertex first) to a vertex that the postorder lists later. -/
def retreats (order : List Nat) : List Nat → Nat
  | v :: u :: walk => (if rank order u < rank order v then 1 else 0) + retreats order (u :: walk)
  | _ => 0

theorem retreats_suffix {before walk : List Nat} (suffix : before <:+ walk) : retreats order before ≤ retreats order walk := by
  induction walk with
  | nil => rw [List.suffix_nil.mp suffix]
  | cons v walk ih =>
    rcases List.suffix_cons_iff.mp suffix with rfl | suffix
    · exact Nat.le_refl _
    · refine Nat.le_trans (ih suffix) ?_
      cases walk with
      | nil => exact Nat.zero_le _
      | cons u walk => exact Nat.le_add_left _ _

/-- Ancestors of `v` lie on all walks to it that go back less than `k` times. -/
def Within (g : AdjacencyList N E) (start : Nat) (order : List Nat) (k : Nat) (ret : DominatorTable) (v : Nat) : Prop :=
  ∀ walk, Trace g.Adjacent start v walk → retreats order walk < k → ∀ a, Above start (ret[·]?) v a → a ∈ walk

/-- The blocks in the order a pass visits them. -/
def visits (order : List Nat) (start : Nat) : List Nat := order.reverse.filter (· != start)

theorem mem_visits {v : Nat} : v ∈ visits order start ↔ v ∈ order ∧ v ≠ start := by
  simp [visits]

theorem visits_falling (once : (order.filter (· != start)).Nodup) :
    (visits order start).Pairwise fun a b => rank order b < rank order a := by
  rw [visits, List.filter_reverse, List.pairwise_reverse]
  induction order using List.reverseRecOn with
  | nil => exact .nil
  | append_singleton order x ih =>
    rw [List.filter_append] at once ⊢
    have earlier := ih once.of_append_left
    have other : ∀ a ∈ order.filter (· != start), a ≠ x ∨ x = start := by
      intro a member
      by_cases top : x = start
      · exact .inr top
      · refine .inl fun same => ?_
        exact List.disjoint_of_nodup_append once member (by simp [same, top])
    have same : ∀ a ∈ order.filter (· != start), rank (order ++ [x]) a = rank order a := by
      intro a member
      have apart : ¬ x = a := by
        rcases other a member with other | top
        · exact Ne.symm other
        · intro same
          simp [← same, top] at member
      simp only [rank, positions_concat, Std.ExtTreeMap.getElem?_insert, Nat.compare_eq_eq, if_neg apart]
    rw [List.pairwise_append]
    refine ⟨earlier.imp_of_mem fun {a b} left right less => by rwa [same a left, same b right], ?_, ?_⟩
    · simp only [List.filter_cons, List.filter_nil]
      split <;> simp
    · intro a left b right
      have last : b = x := by simpa using List.mem_of_mem_filter right
      obtain ⟨i, position⟩ := positions_of_mem (List.mem_of_mem_filter left)
      have inside := position_lt position
      rw [same a left, last, rank, rank, positions_concat, position]
      simpa using inside

/-- The state of a pass over `old` with `rest` still to visit. -/
structure Passing (g : AdjacencyList N E) (start : Nat) (order : List Nat) (k : Nat) (old : DominatorTable)
    (done rest : List Nat) (ret : DominatorTable) : Prop where
  split : visits order start = done ++ rest
  rising : Rising start order ret
  covered : ∀ v, ret.contains v → v ∈ order
  nearest : Nearest g start ret
  unvisited : ∀ v ∈ rest, ret[v]? = old[v]?
  visited : ∀ v ∈ done, ret.contains v
  grows : ∀ v, old.contains v → ret.contains v
  within : ∀ v ∈ done, Within g start order (k + 1) ret v

/-- What holds of the table before pass `k`. -/
structure Turn (g : AdjacencyList N E) (start : Nat) (order : List Nat) (k : Nat) (ret : DominatorTable) : Prop where
  rising : Rising start order ret
  covered : ∀ v, ret.contains v → v ∈ order
  nearest : Nearest g start ret
  full : 0 < k → ∀ v ∈ order, ret.contains v
  within : ∀ v, ret.contains v → Within g start order k ret v

theorem above_insert {ret : DominatorTable} (rising : Rising start order ret) {v d w a i j : Nat}
    (position : (positions order)[v]? = some i) (later : (positions order)[w]? = some j) (less : i < j)
    (above : Above start ((ret.insert v d)[·]?) w a) : Above start (ret[·]?) w a := by
  induction above with
  | refl => exact .refl
  | @tail b c _ up ih =>
    obtain ⟨k, there, below, -⟩ := rising.above later ih
    have other : ¬ v = b := by
      intro same
      rw [← same, position] at there
      cases there
      omega
    have found := up.2
    simp only [Std.ExtTreeMap.getElem?_insert, Nat.compare_eq_eq, if_neg other] at found
    exact ih.tail ⟨up.1, found⟩

section Step
variable {k : Nat} {old ret : DominatorTable} {done rest : List Nat} {v : Nat} (valid : g.Consistent)
  (collected : (TreeIterator.collectPostorder g fuel start : Outcome ε (List Nat)) = .returns order)
  (turn : Turn g start order k old) (passing : Passing g start order k old done (v :: rest) ret)
include valid collected passing

theorem Passing.later {u i j : Nat} (here : (positions order)[v]? = some i) (position : (positions order)[u]? = some j)
    (less : i < j) : u = start ∨ u ∈ done := by
  by_cases top : u = start
  · exact .inl top
  · have member : u ∈ visits order start := mem_visits.mpr ⟨List.mem_of_getElem? (getElem?_positions position), top⟩
    have falling := visits_falling (collectPostorder_exact valid collected).2
    rw [passing.split] at member falling
    rcases List.mem_append.mp member with inside | ahead
    · exact .inr inside
    · have order' := (List.pairwise_append.mp falling).2.1
      rcases List.mem_cons.mp ahead with same | ahead
      · rw [same, here] at position
        cases position
        omega
      · have below := (List.pairwise_cons.mp order').1 u ahead
        simp only [rank, here, position, Option.getD_some] at below
        omega

omit valid collected in
theorem Passing.crossing {u x a : Nat} {walk : List Nat} (turn : Turn g start order k old)
    (trace : Trace g.Adjacent start u walk) (few : retreats order walk < k) (known : old.contains u)
    (first : Above start (old[·]?) u x) (above : Above start (ret[·]?) x a) : a ∈ walk := by
  induction above using Relation.ReflTransGen.head_induction_on with
  | refl => exact turn.within u known walk trace few a first
  | @head x y up above ih =>
    by_cases unvisited : x ∈ v :: rest
    · have same : old[x]? = some y := (passing.unvisited x unvisited).symm.trans up.2
      exact ih (first.tail ⟨up.1, same⟩)
    · have member : x ∈ visits order start :=
        mem_visits.mpr ⟨turn.covered x (turn.rising.contains_above known first), up.1⟩
      rw [passing.split] at member
      have visited := (List.mem_append.mp member).resolve_right unvisited
      obtain ⟨before, trace', suffix⟩ := trace.upto (turn.within u known walk trace few x first)
      have less : retreats order before ≤ retreats order walk := retreats_suffix suffix
      exact suffix.subset (passing.within x visited before trace' (by omega) a (.head up above))

theorem Passing.within_new (turn : Turn g start order k old) {d i j : Nat}
    (computed : (newIdom g fuel (positions order) order ret v : Outcome ε Nat) = .returns d)
    (here : (positions order)[v]? = some i) (there : (positions order)[d]? = some j) (less : i < j) :
    Within g start order (k + 1) (ret.insert v d) v := by
  have inner : v ≠ start := by
    have member : v ∈ visits order start := by simp [passing.split]
    exact (mem_visits.mp member).2
  intro walk trace few a above
  rcases above.cases_head with rfl | ⟨c, ⟨-, up⟩, above⟩
  · exact trace.mem
  simp only [Std.ExtTreeMap.getElem?_insert_self, Option.some.injEq] at up
  subst c
  have upper : Above start (ret[·]?) d a := above_insert passing.rising here there less above
  -- by induction on the walk, which may stay at `v` for a while
  induction size : walk.length using Nat.strongRecOn generalizing walk with
  | ind size ih =>
    cases trace with
    | root => exact absurd rfl inner
    | @step u _ walk trace link =>
      apply List.mem_cons_of_mem
      have shorter : retreats order walk ≤ retreats order (v :: walk) := retreats_suffix (List.suffix_cons _ _)
      by_cases same : u = v
      · subst u
        exact ih walk.length (by rw [← size]; simp) walk trace (by omega) rfl
      · have reachable : Reachable g.Adjacent start u := ⟨_, trace⟩
        have member : u ∈ order := ((collectPostorder_exact valid collected).1 u).mpr reachable
        obtain ⟨l, position⟩ := positions_of_mem member
        have distinct : l ≠ i := by
          intro equal
          have first := getElem?_positions position
          rw [equal, getElem?_positions here] at first
          exact same (Option.some.inj first).symm
        rcases Nat.lt_or_gt_of_ne distinct with back | forth
        · have split : walk = u :: walk.tail := by cases trace <;> rfl
          have counted : retreats order (v :: walk) = 1 + retreats order walk := by
            rw [split, retreats, if_pos (by simp [rank, here, position, back])]
          have known : old.contains u := turn.full (by omega) u member
          have meets := newIdom_above valid passing.rising.root computed link same (passing.grows u known)
          exact passing.crossing turn trace (by omega) known .refl (meets.trans upper)
        · rcases passing.later valid collected here position forth with top | visited
          · subst u
            have meets := newIdom_above valid passing.rising.root computed link same passing.rising.contains_root
            rw [above_start (meets.trans upper)]
            exact start_dominates start walk trace
          · have meets := newIdom_above valid passing.rising.root computed link same (passing.visited u visited)
            exact passing.within u visited walk trace (by omega) a (meets.trans upper)

theorem Passing.step (turn : Turn g start order k old) (bound : 2 * order.length < fuel) :
    ∃ d, (newIdom g fuel (positions order) order ret v : Outcome ε Nat) = .returns d ∧
      Passing g start order k old (done ++ [v]) rest (ret.insert v d) := by
  have member : v ∈ visits order start := by simp [passing.split]
  obtain ⟨inside, inner⟩ := mem_visits.mp member
  obtain ⟨i, here⟩ := positions_of_mem inside
  obtain ⟨u, j, edge, position, less⟩ := later_predecessor valid collected inner here
  have known : ret.contains u := by
    rcases passing.later valid collected here position less with rfl | visited
    · exact passing.rising.contains_root
    · exact passing.visited u visited
  obtain ⟨d, l, computed, knownD, there, less'⟩ := newIdom_returns (ε := ε) valid collected passing.rising bound
    passing.covered edge known here position less
  have falling := visits_falling (collectPostorder_exact valid collected).2
  rw [passing.split] at falling
  obtain ⟨-, ahead, above⟩ := List.pairwise_append.mp falling
  refine ⟨d, computed, ⟨by simp [passing.split], passing.rising.insert inner knownD here there less', ?_,
    Nearest.insert valid collected passing.rising.root passing.nearest computed, ?_, ?_, ?_, ?_⟩⟩
  · intro w present
    simp only [Std.ExtTreeMap.contains_insert, Bool.or_eq_true, beq_iff_eq, Nat.compare_eq_eq] at present
    rcases present with rfl | present
    · exact inside
    · exact passing.covered w present
  · intro w later
    have other : ¬ v = w := by
      intro same
      have less := (List.pairwise_cons.mp ahead).1 w later
      rw [same] at less
      exact Nat.lt_irrefl _ less
    simp only [Std.ExtTreeMap.getElem?_insert, Nat.compare_eq_eq, if_neg other]
    exact passing.unvisited w (List.mem_cons_of_mem _ later)
  · intro w present
    simp only [Std.ExtTreeMap.contains_insert, Bool.or_eq_true, beq_iff_eq, Nat.compare_eq_eq]
    rcases List.mem_append.mp present with present | present
    · exact .inr (passing.visited w present)
    · exact .inl (List.mem_singleton.mp present).symm
  · intro w present
    simp only [Std.ExtTreeMap.contains_insert, Bool.or_eq_true]
    exact .inr (passing.grows w present)
  · intro w present
    rcases List.mem_append.mp present with present | present
    · have less := above w present v List.mem_cons_self
      obtain ⟨l, there⟩ := positions_of_mem (passing.covered w (passing.visited w present))
      simp only [rank, here, there, Option.getD_some] at less
      intro walk trace few a up
      exact passing.within w present walk trace few a (above_insert passing.rising here there less up)
    · rw [List.mem_singleton.mp present]
      exact passing.within_new valid collected turn computed here there less'

end Step

/-- Vertices that can be avoided can be avoided going back less than `bound` times. -/
def Exhausted (g : AdjacencyList N E) (start : Nat) (order : List Nat) (bound : Nat) : Prop :=
  ∀ v ∈ order, ∀ a ∈ order, ¬ Dominates g.Adjacent start a v →
    ∃ walk, Trace g.Adjacent start v walk ∧ a ∉ walk ∧ retreats order walk < bound

private theorem exists_exhausted (g : AdjacencyList N E) (start : Nat) (order : List Nat) : ∃ bound, Exhausted g start order bound := by
  have general : ∀ pairs : List (Nat × Nat), ∃ bound, ∀ pair ∈ pairs, ¬ Dominates g.Adjacent start pair.2 pair.1 →
      ∃ walk, Trace g.Adjacent start pair.1 walk ∧ pair.2 ∉ walk ∧ retreats order walk < bound := by
    intro pairs
    induction pairs with
    | nil => exact ⟨0, by simp⟩
    | cons pair pairs ih =>
      obtain ⟨bound, others⟩ := ih
      by_cases dominates : Dominates g.Adjacent start pair.2 pair.1
      · exact ⟨bound, List.forall_mem_cons.mpr ⟨fun avoidable => absurd dominates avoidable, others⟩⟩
      · simp only [Dominates, not_forall] at dominates
        obtain ⟨walk, trace, avoids⟩ := dominates
        refine ⟨max bound (retreats order walk + 1), List.forall_mem_cons.mpr ⟨fun _ => ⟨walk, trace, avoids, by omega⟩, ?_⟩⟩
        intro other member avoidable
        obtain ⟨walk, trace, avoids, less⟩ := others other member avoidable
        exact ⟨walk, trace, avoids, by omega⟩
  obtain ⟨bound, all⟩ := general (order ×ˢ order)
  exact ⟨bound, fun v inside a inside' avoidable => all (v, a) (List.mem_product.mpr ⟨inside, inside'⟩) avoidable⟩

theorem Within.dominates {ret : DominatorTable} {bound k v a : Nat} (exhausted : Exhausted g start order bound)
    (enough : bound ≤ k) (inside : v ∈ order) (inside' : a ∈ order) (within : Within g start order k ret v)
    (above : Above start (ret[·]?) v a) : Dominates g.Adjacent start a v := by
  by_contra avoidable
  obtain ⟨walk, trace, avoids, less⟩ := exhausted v inside a inside' avoidable
  exact avoids (within walk trace (by omega) a above)

section Pass
variable {k bound : Nat} {old : DominatorTable} (valid : g.Consistent)
  (collected : (TreeIterator.collectPostorder g fuel start : Outcome ε (List Nat)) = .returns order)
  (turn : Turn g start order k old) (exhausted : Exhausted g start order bound)
include valid collected turn exhausted

theorem Passing.unchanged {done rest : List Nat} {v d : Nat} (enough : bound ≤ k) (later : 0 < k)
    (next : Passing g start order k old (done ++ [v]) rest (old.insert v d)) : old[v]? = some d := by
  have visited : v ∈ done ++ [v] := by simp
  have inner : v ∈ visits order start := by simp [next.split]
  obtain ⟨inside, other⟩ := mem_visits.mp inner
  have known := turn.full later v inside
  obtain ⟨e, found⟩ := Option.isSome_iff_exists.mp (show (old[v]?).isSome by simpa using known)
  have reachable : Reachable g.Adjacent start v := ((collectPostorder_exact valid collected).1 v).mp inside
  have strict : ∀ {ret : DominatorTable} {c : Nat}, Rising start order ret → (∀ w, ret.contains w → w ∈ order) →
      bound ≤ k + 1 → (∃ l, bound ≤ l ∧ Within g start order l ret v) → ret[v]? = some c →
      StrictlyDominates g.Adjacent start c v := by
    intro ret c rising covered _ within entry
    obtain ⟨knownC, i, j, here, there, less⟩ := rising.rising v c other entry
    obtain ⟨l, enough, within⟩ := within
    refine ⟨within.dominates exhausted enough inside (covered c knownC) (.single ⟨other, entry⟩), ?_⟩
    intro same
    rw [same, here] at there
    cases there
    omega
  have entry : (old.insert v d)[v]? = some d := by simp
  have oldStrict := strict turn.rising turn.covered (by omega) ⟨k, enough, turn.within v known⟩ found
  have newStrict := strict next.rising next.covered (by omega) ⟨k + 1, by omega, next.within v visited⟩ entry
  have up := turn.nearest v e d other found newStrict
  have down := next.nearest v d e other entry oldStrict
  rw [found, down.antisymm (reachable.of_dominates oldStrict.1) up]

/-- A pass returns, improves what is known, and changes nothing after enough of them. -/
theorem passIdom_returns (fuelled : 2 * order.length < fuel) :
    (passIdom g fuel start (positions order) order old : Outcome ε _) = .returns none ∨
    ∃ next, (passIdom g fuel start (positions order) order old : Outcome ε _) = .returns (some next) ∧
      Turn g start order (k + 1) next ∧ k < max bound 1 := by
  have first : Passing g start order k old [] (visits order start) old :=
    ⟨rfl, turn.rising, turn.covered, turn.nearest, fun _ _ => rfl, by simp, fun _ known => known, by simp⟩
  obtain ⟨⟨ret, flag⟩, folded, done, passing, stable⟩ := Outcome.fold_returns
    (f := updateIdom (ε := ε) g fuel (positions order) order)
    (fun rest pass => ∃ done, Passing g start order k old done rest pass.1 ∧
      (bound ≤ k → 0 < k → pass = (old, true)))
    (fun v rest pass holds => by
      obtain ⟨done, passing, stable⟩ := holds
      obtain ⟨d, computed, next⟩ := passing.step valid collected turn fuelled
      by_cases same : pass.1[v]? = some d
      · have kept : pass.1.insert v d = pass.1 := by
          refine Std.ExtTreeMap.ext_getElem? fun w => ?_
          simp only [Std.ExtTreeMap.getElem?_insert, Nat.compare_eq_eq]
          split
          · next here => rw [← here, same]
          · rfl
        refine ⟨pass, by simp [updateIdom, computed, same], done ++ [v], kept ▸ next, stable⟩
      · refine ⟨(pass.1.insert v d, false), by simp [updateIdom, computed, same], done ++ [v], next, ?_⟩
        intro enough later
        have unchanged := stable enough later
        rw [unchanged] at next same
        exact absurd (Passing.unchanged valid collected turn exhausted enough later next) same)
    (visits order start) (old, true) ⟨[], first, fun _ _ => rfl⟩
  have passed : (passIdom g fuel start (positions order) order old : Outcome ε _) =
      .returns (if flag then none else some ret) := by
    simp only [passIdom]
    rw [show order.reverse.filter (· != start) = visits order start from rfl, folded]
    rfl
  cases flag with
  | true => exact .inl passed
  | false =>
    have all : ∀ v ∈ order, v = start ∨ v ∈ done := by
      intro v inside
      by_cases top : v = start
      · exact .inl top
      · have member := mem_visits.mpr ⟨inside, top⟩
        rw [passing.split, List.append_nil] at member
        exact .inr member
    refine .inr ⟨ret, passed, ⟨passing.rising, passing.covered, passing.nearest, ?_, ?_⟩, ?_⟩
    · intro _ v inside
      rcases all v inside with rfl | visited
      · exact passing.rising.contains_root
      · exact passing.visited v visited
    · intro v known
      rcases all v (passing.covered v known) with rfl | visited
      · intro walk trace _ a above
        rw [above_start above]
        exact start_dominates _ walk trace
      · exact passing.within v visited
    · by_contra many
      have unchanged := stable (by omega) (by omega)
      cases unchanged

end Pass

theorem Turn.initial (member : start ∈ order) : Turn g start order 0 ((∅ : DominatorTable).insert start start) := by
  have entry : ∀ v d : Nat, v ≠ start → ((∅ : DominatorTable).insert start start)[v]? ≠ some d := by
    intro v d other
    simp only [Std.ExtTreeMap.getElem?_insert, Nat.compare_eq_eq, if_neg (Ne.symm other)]
    simp
  refine ⟨⟨by simp, fun v d other found => absurd found (entry v d other)⟩, ?_, .initial g start, fun zero => absurd zero (Nat.lt_irrefl 0), ?_⟩
  · intro v known
    simp only [Std.ExtTreeMap.contains_insert, Std.ExtTreeMap.contains_empty, Bool.or_false, beq_iff_eq,
      Nat.compare_eq_eq] at known
    exact known ▸ member
  · intro v _ walk _ none
    exact absurd none (Nat.not_lt_zero _)

end Passes

theorem immediateDominator_returns (valid : g.Consistent) (entry : (g.vertexLabel start).isSome) :
    ∃ enough, ∀ fuel, enough ≤ fuel → ∃ idom, (immediateDominator g fuel start : Outcome ε DominatorTable) = .returns idom := by
  obtain ⟨order, collects⟩ := exists_collectPostorder (ε := ε) valid entry
  obtain ⟨bound, exhausted⟩ := exists_exhausted g start order
  refine ⟨max (2 * g.numVertices + 1 + 1) (max (2 * order.length + 1) (max bound 1 + 1)), ?_⟩
  intro fuel large
  have collected := collects fuel (by omega)
  obtain ⟨idom, finished, -⟩ := Outcome.repeated_returns
    (fun _ => passIdom (ε := ε) g fuel start (positions order) order) (max bound 1)
    (fun turn ret => Turn g start order turn ret)
    (fun turn ret holds => passIdom_returns valid collected holds exhausted (by omega))
    fuel _ (Turn.initial (start_mem_postorder valid collected)) (Nat.zero_le _) (by omega)
  exact ⟨idom, by simp [immediateDominator, collected, finished]⟩

/-- The reachable vertices with their immediate dominators. -/
structure Exact (g : AdjacencyList N E) (start : Nat) (idom : DominatorTable) : Prop where
  keys : ∀ v, idom.contains v ↔ Reachable g.Adjacent start v
  root : idom[start]? = some start
  parents : ∀ v, v ≠ start → Reachable g.Adjacent start v → ∃ d, idom[v]? = some d ∧
    StrictlyDominates g.Adjacent start d v ∧
    (∀ a, StrictlyDominates g.Adjacent start a v → Dominates g.Adjacent start a d) ∧
    ∀ other, StrictlyDominates g.Adjacent start other v →
      (∀ a, StrictlyDominates g.Adjacent start a v → Dominates g.Adjacent start a other) → other = d

theorem exact_of_returns (valid : g.Consistent) {fuel : Nat} {idom : DominatorTable}
    (finished : (immediateDominator g fuel start : Outcome ε DominatorTable) = .returns idom) : Exact g start idom := by
  obtain ⟨order, collected, covered, nearest, confirmed⟩ := immediateDominator_fixpoint (Nearest g start) (.initial g start)
    (fun order ret b d collected member inner covered nearest computed =>
      Nearest.insert valid collected covered.root nearest computed) finished
  have listed := (collectPostorder_exact valid collected).1
  have top : idom.contains start := by
    rw [Std.ExtTreeMap.contains_eq_isSome_getElem?, covered.root]
    rfl
  have keys : ∀ v, idom.contains v ↔ Reachable g.Adjacent start v := by
    intro v
    constructor
    · intro known
      rcases covered.keys v known with rfl | member
      · exact ⟨_, .root⟩
      · exact (listed v).mp member
    · intro reachable
      by_cases root : v = start
      · exact root ▸ top
      · obtain ⟨d, found, -⟩ := confirmed v ((listed v).mpr reachable) root
        rw [Std.ExtTreeMap.contains_eq_isSome_getElem?, found]
        rfl
  have settled : Settled g.Adjacent start (idom[·]?) := by
    intro p b reachable edge other inner
    obtain ⟨d, found, computed⟩ := confirmed b ((listed b).mpr (reachable.step edge)) inner
    exact ⟨d, found, newIdom_above valid covered.root computed edge other ((keys p).mpr reachable)⟩
  refine ⟨keys, covered.root, ?_⟩
  intro v inner reachable
  obtain ⟨ancestors, lineage⟩ := settled.lineage reachable
  cases lineage with
  | root => exact absurd rfl inner
  | @child _ d above _ found lineage =>
    have strict : StrictlyDominates g.Adjacent start d v := by
      refine ⟨settled.dominates (.single ⟨inner, found⟩), ?_⟩
      intro same
      exact lineage.notMem_parent inner found (same ▸ lineage.mem)
    refine ⟨d, found, strict, fun a => nearest v d a inner found, ?_⟩
    intro other strict' nearest'
    exact (nearest v d other inner found strict').antisymm (reachable.of_dominates strict'.1) (nearest' d strict)

/-- Going up from a reachable vertex ends at the start, through reachable vertices only. -/
theorem Exact.lineage {idom : DominatorTable} (exactly : Exact g start idom) {v : Nat} (reachable : Reachable g.Adjacent start v) :
    ∃ line, Lineage start (idom[·]?) v line ∧ ∀ a ∈ line, Reachable g.Adjacent start a := by
  obtain ⟨walk, trace⟩ := reachable
  induction bound : walk.length using Nat.strongRecOn generalizing v walk with
  | ind bound ih =>
    by_cases top : v = start
    · subst v
      exact ⟨_, .root, fun a member => List.mem_singleton.mp member ▸ ⟨_, .root⟩⟩
    · obtain ⟨d, found, strict, -⟩ := exactly.parents v top ⟨walk, trace⟩
      cases trace with
      | root => exact absurd rfl top
      | @step u _ rest trace link =>
        have inside : d ∈ rest := (List.mem_cons.mp (strict.1 _ (trace.step link))).resolve_left strict.2
        obtain ⟨before, shorter, suffix⟩ := trace.upto inside
        have length := suffix.length_le
        obtain ⟨line, lineage, members⟩ := ih before.length (by rw [← bound, List.length_cons]; omega) before shorter rfl
        exact ⟨_, .child top found lineage, List.forall_mem_cons.mpr ⟨⟨_, trace.step link⟩, members⟩⟩

theorem immediateDominator_exact (valid : g.Consistent) (entry : (g.vertexLabel start).isSome) :
    ∃ enough, ∀ fuel, enough ≤ fuel →
      ∃ idom, (immediateDominator g fuel start : Outcome ε DominatorTable) = .returns idom ∧ Exact g start idom := by
  obtain ⟨enough, returns⟩ := immediateDominator_returns (ε := ε) valid entry
  refine ⟨enough, fun fuel large => ?_⟩
  obtain ⟨idom, finished⟩ := returns fuel large
  exact ⟨idom, finished, exact_of_returns valid finished⟩

/-- A loop through the start, one block outside it and a vertex nothing leads to. -/
def entryLoop : AdjacencyList Unit Unit := .ofLists [(), (), (), ()] [((), 0, 1), ((), 1, 0), ((), 1, 1), ((), 0, 2), ((), 3, 0)]

theorem entryLoop_exact : ∃ enough, ∀ fuel, enough ≤ fuel →
    ∃ idom, (immediateDominator entryLoop fuel 0 : Outcome Empty DominatorTable) = .returns idom ∧ Exact entryLoop 0 idom :=
  immediateDominator_exact (.ofLists _ _) (by decide)

end Panopticon.Proofs.DominatorTotal
