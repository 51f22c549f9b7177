import Panopticon.Proofs.FrontierTotal

/-! The iteration over sets of dominators. It goes down from the sets of all vertices, never below the dominators, and
where it stops every member of a set is met on every walk. -/

namespace Panopticon.Proofs.Dominators
open Library Panopticon.Dominator Proofs.Dominator Proofs.FrontierTotal AdjacencyList

variable {N E ε : Type} {g : AdjacencyList N E} {start : Nat}

section Positions
variable {vs : List Nat} (nodup : vs.Nodup)
include nodup

theorem positions_iff {v i : Nat} : (positions vs)[v]? = some i ↔ vs[i]? = some v := by
  constructor
  · exact getElem?_positions
  · intro found
    obtain ⟨j, here⟩ := positions_of_mem (List.mem_of_getElem? found)
    have same := getElem?_positions here
    rw [here]
    have inside := (List.getElem?_eq_some_iff.mp found).1
    rw [(List.getElem?_inj inside nodup).mp (found.trans same.symm)]

theorem size_positions : (positions vs).size = vs.length := by
  have perm : (positions vs).keys.Perm vs := by
    rw [List.perm_ext_iff_of_nodup Std.ExtTreeMap.nodup_keys nodup]
    intro v
    rw [Std.ExtTreeMap.mem_keys, Std.ExtTreeMap.mem_iff_isSome_getElem?, Option.isSome_iff_exists]
    simp only [positions_iff nodup, List.mem_iff_getElem?]
  simpa using perm.length_eq

end Positions

def at' (vs : List Nat) (curDom : List BitSet) (v : Nat) : BitSet := (curDom[vs.idxOf v]?).getD ∅

def Next (g : AdjacencyList N E) (start : Nat) (vs : List Nat) (curDom : List BitSet) (v j : Nat) : Prop :=
  j = vs.idxOf v ∨ (v ≠ start ∧ (∃ p, g.Adjacent p v) ∧ ∀ p, g.Adjacent p v → j ∈ at' vs curDom p)

section Pass
variable (valid : g.Consistent) {vs : List Nat} (nodup : vs.Nodup) (listed : ∀ v, v ∈ vs ↔ (g.vertexLabel v).isSome)
  {curDom : List BitSet} (length : curDom.length = vs.length)

theorem positions_idxOf {v : Nat} (nodup : vs.Nodup) (member : v ∈ vs) : (positions vs)[v]? = some (vs.idxOf v) := by
  rw [positions_iff nodup]
  exact List.getElem?_idxOf member

theorem getElem?_at {v : Nat} (length : curDom.length = vs.length) (member : v ∈ vs) :
    curDom[vs.idxOf v]? = some (at' vs curDom v) := by
  have inside : vs.idxOf v < curDom.length := length ▸ List.idxOf_lt_length_iff.mpr member
  rw [at', List.getElem?_eq_getElem inside]
  rfl

include valid nodup listed length

private theorem meetDom_returns {v : Nat} {into : List Nat} (list : g.inEdges[v]? = some into) :
    ∃ myDom, (Outcome.fold (meetDom g (positions vs) curDom) none into : Outcome ε _) = .returns myDom ∧
      ∀ j, j ∈ myDom.getD ∅ ↔ (∃ p, g.Adjacent p v) ∧ ∀ p, g.Adjacent p v → j ∈ at' vs curDom p := by
  obtain ⟨-, members⟩ := valid.inList v into list
  have folded := Outcome.fold_returns (ε := ε) (f := meetDom g (positions vs) curDom)
    (fun rest myDom => ∃ done, into = done ++ rest ∧ (myDom = none ↔ done = []) ∧
      ∀ j, j ∈ myDom.getD ∅ ↔ done ≠ [] ∧ ∀ e ∈ done, ∀ p, g.edges[e]? = some (p, v) → j ∈ at' vs curDom p) ?_ into none
    ⟨[], rfl, by simp, by simp⟩
  · obtain ⟨myDom, returned, done, split, -, holds⟩ := folded
    rw [List.append_nil] at split
    subst split
    refine ⟨myDom, returned, fun j => (holds j).trans (and_congr ?_ ?_)⟩
    · constructor
      · intro some
        obtain ⟨e, member⟩ := List.exists_mem_of_ne_nil _ some
        obtain ⟨p, stored⟩ := (members e).mp member
        exact ⟨p, e, stored⟩
      · rintro ⟨p, e, stored⟩
        exact List.ne_nil_of_mem ((members e).mpr ⟨p, stored⟩)
    · constructor
      · rintro all p ⟨e, stored⟩
        exact all e ((members e).mpr ⟨p, stored⟩) p stored
      · intro all e _ p stored
        exact all p ⟨e, stored⟩
  · rintro e rest myDom ⟨done, split, empty, holds⟩
    obtain ⟨u, stored⟩ := (members e).mp (by rw [split]; simp)
    have known : u ∈ vs := (listed u).mpr (valid.ends e u v stored).1
    have source : g.source e = some u := by simp [AdjacencyList.source, stored]
    simp only [meetDom, source, Outcome.unwrap, positions_idxOf nodup known, getElem?_at length known, Outcome.returns_bind]
    cases myDom with
    | none =>
      obtain rfl := empty.mp rfl
      refine ⟨_, rfl, [e], split, by simp, fun j => ?_⟩
      simp [stored]
    | some s =>
      refine ⟨_, rfl, done ++ [e], by rw [split]; simp, by simp, fun j => ?_⟩
      have before := holds j
      have nonempty : done ≠ [] := fun none => absurd (empty.mpr none) (by simp)
      simp only [Option.getD_some, ne_eq, nonempty, not_false_eq_true, true_and] at before
      simp only [Option.getD_some, Finset.mem_inter, before, ne_eq, List.append_eq_nil_iff, List.cons_ne_nil, and_false,
        not_false_eq_true, true_and, List.mem_append, List.mem_singleton, or_imp, forall_and, forall_eq, stored,
        Option.some.injEq, Prod.mk.injEq, and_true, forall_eq']

private theorem finalDom_returns (start : Nat) {v : Nat} (member : v ∈ vs) :
    ∃ dom, (finalDom g start (positions vs) curDom v : Outcome ε _) = .returns (vs.idxOf v, dom) ∧
      ∀ j, j ∈ dom ↔ Next g start vs curDom v j := by
  have position := positions_idxOf nodup member
  by_cases top : v = start
  · subst top
    refine ⟨insert (vs.idxOf v) ∅, ?_, fun j => ?_⟩
    · simp [finalDom, position, Outcome.unwrap]
    · simp [Next]
  · obtain ⟨into, list⟩ := Option.isSome_iff_exists.mp ((valid.inKeys v).mpr ((listed v).mp member))
    obtain ⟨myDom, folded, holds⟩ := meetDom_returns (ε := ε) valid nodup listed length list
    refine ⟨insert (vs.idxOf v) (myDom.getD ∅), ?_, fun j => ?_⟩
    · simp only [finalDom, if_neg top, incoming, list, Outcome.unwrap, Outcome.returns_bind, folded, position,
        Outcome.pure_eq]
    · rw [Finset.mem_insert, holds, Next]
      simp only [ne_eq, top, not_false_eq_true, true_and]

theorem nextDom_returns (start : Nat) : ∃ next, (nextDom g start (positions vs) vs curDom : Outcome ε _) = .returns next ∧
    next.length = vs.length ∧ ∀ v ∈ vs, ∀ j, j ∈ at' vs next v ↔ Next g start vs curDom v j := by
  unfold nextDom
  refine Exists.imp (fun next => And.imp_right ?_) (Outcome.fold_returns (fun rest next => ∃ done, vs = done ++ rest ∧
      next.length = vs.length ∧ ∀ v ∈ done, ∀ j, j ∈ at' vs next v ↔ Next g start vs curDom v j) ?_ vs
    (List.replicate (positions vs).size ∅) ⟨[], rfl, by rw [List.length_replicate, size_positions nodup], by simp⟩)
  · intro folded
    obtain ⟨done, split, total, holds⟩ := folded
    rw [List.append_nil] at split
    subst split
    exact ⟨total, holds⟩
  · rintro v rest next ⟨done, split, total, holds⟩
    have member : v ∈ vs := by rw [split]; simp
    obtain ⟨dom, returned, exact⟩ := finalDom_returns (ε := ε) valid nodup listed length start member
    refine ⟨next.set (vs.idxOf v) dom, ?_, done ++ [v], by rw [split]; simp, by simpa using total, ?_⟩
    · simp only [returned, Outcome.returns_bind, Outcome.pure_eq]
    · intro w inside j
      by_cases same : w = v
      · subst same
        have here : vs.idxOf w < next.length := total ▸ List.idxOf_lt_length_iff.mpr member
        rw [at', List.getElem?_set_self here]
        exact exact j
      · have earlier : w ∈ done := by simpa [same] using inside
        have apart : vs.idxOf v ≠ vs.idxOf w := fun equal => same ((List.idxOf_inj member).mp equal).symm
        rw [at', List.getElem?_set_ne apart]
        exact holds w earlier j

end Pass

private theorem eq_of_at {vs : List Nat} (nodup : vs.Nodup) {next curDom : List BitSet} (first : next.length = vs.length)
    (second : curDom.length = vs.length) (same : ∀ v ∈ vs, at' vs next v = at' vs curDom v) : next = curDom := by
  apply List.ext_getElem (first.trans second.symm)
  intro i inNext inCur
  have inside : i < vs.length := first ▸ inNext
  have here := same vs[i] (List.getElem_mem inside)
  simpa [at', nodup.idxOf_getElem, inNext, inCur] using here

def total (vs : List Nat) (curDom : List BitSet) : Nat := (vs.map fun v => (at' vs curDom v).card).sum

private theorem total_lt {vs : List Nat} (nodup : vs.Nodup) {next curDom : List BitSet} (first : next.length = vs.length)
    (second : curDom.length = vs.length) (down : ∀ v ∈ vs, at' vs next v ⊆ at' vs curDom v) (other : next ≠ curDom) :
    total vs next < total vs curDom := by
  have smaller : ∃ v ∈ vs, at' vs next v ≠ at' vs curDom v := by
    by_contra none
    push Not at none
    exact other (eq_of_at nodup first second none)
  obtain ⟨v, member, different⟩ := smaller
  apply List.sum_lt_sum
  · exact fun w inside => Finset.card_le_card (down w inside)
  · exact ⟨v, member, Finset.card_lt_card ((down v member).ssubset_of_ne different)⟩

section Iteration
variable {vs : List Nat} (connected : Connected g start)

/-- What holds of the sets in every turn: they only shrink from here on, and keep all dominators. -/
structure Bounded (g : AdjacencyList N E) (start : Nat) (vs : List Nat) (curDom : List BitSet) : Prop where
  length : curDom.length = vs.length
  range : ∀ v ∈ vs, ∀ j ∈ at' vs curDom v, j < vs.length
  down : ∀ v ∈ vs, ∀ j, Next g start vs curDom v j → j ∈ at' vs curDom v
  keeps : ∀ v ∈ vs, ∀ d, Dominates g.Adjacent start d v → vs.idxOf d ∈ at' vs curDom v

private theorem exists_pred {v : Nat} (reachable : Reachable g.Adjacent start v) (inner : v ≠ start) : ∃ p, g.Adjacent p v := by
  obtain ⟨walk, trace⟩ := reachable
  obtain ⟨p, -, -, edge, -⟩ := exists_entry trace inner
  exact ⟨p, edge⟩

theorem Next.mono {curDom next : List BitSet} (valid : g.Consistent) (listed : ∀ v, v ∈ vs ↔ (g.vertexLabel v).isSome)
    (below : ∀ v ∈ vs, ∀ j, j ∈ at' vs next v → j ∈ at' vs curDom v) {v j : Nat} (holds : Next g start vs next v j) :
    Next g start vs curDom v j := by
  apply holds.imp_right
  intro later
  obtain ⟨inner, pred, all⟩ := later
  refine ⟨inner, pred, fun p edge => ?_⟩
  obtain ⟨e, stored⟩ := edge
  exact below p ((listed p).mpr (valid.ends e p v stored).1) j (all p ⟨e, stored⟩)

theorem Bounded.step {curDom next : List BitSet} (valid : g.Consistent) (listed : ∀ v, v ∈ vs ↔ (g.vertexLabel v).isSome)
    (connected : Connected g start) (bounded : Bounded g start vs curDom) (length : next.length = vs.length)
    (exact : ∀ v ∈ vs, ∀ j, j ∈ at' vs next v ↔ Next g start vs curDom v j) : Bounded g start vs next := by
  have below : ∀ v ∈ vs, ∀ j, j ∈ at' vs next v → j ∈ at' vs curDom v := fun v member j inside =>
    bounded.down v member j ((exact v member j).mp inside)
  refine ⟨length, fun v member j inside => bounded.range v member j (below v member j inside), ?_, ?_⟩
  · intro v member j later
    exact (exact v member j).mpr (later.mono valid listed below)
  · intro v member d dominates
    rw [exact v member]
    by_cases same : d = v
    · exact .inl (congrArg vs.idxOf same)
    · have inner : v ≠ start := by
        rintro rfl
        exact same (dominates_start dominates)
      refine .inr ⟨inner, exists_pred (connected v ((listed v).mp member)) inner, fun p edge => ?_⟩
      obtain ⟨e, stored⟩ := edge
      have known := (listed p).mpr (valid.ends e p v stored).1
      exact bounded.keeps p known d (StrictlyDominates.pred ⟨dominates, same⟩ ⟨e, stored⟩)

theorem Bounded.initial (valid : g.Consistent) (listed : ∀ v, v ∈ vs ↔ (g.vertexLabel v).isSome)
    (entry : (g.vertexLabel start).isSome) (connected : Connected g start) :
    Bounded g start vs (List.replicate vs.length (Finset.range vs.length)) := by
  have all : ∀ v ∈ vs, at' vs (List.replicate vs.length (Finset.range vs.length)) v = Finset.range vs.length := by
    intro v member
    rw [at', List.getElem?_replicate_of_lt (List.idxOf_lt_length_iff.mpr member)]
    rfl
  refine ⟨List.length_replicate, ?_, ?_, ?_⟩
  · intro v member j inside
    rw [all v member] at inside
    exact Finset.mem_range.mp inside
  · intro v member j later
    rw [all v member, Finset.mem_range]
    rcases later with rfl | ⟨-, ⟨p, e, stored⟩, common⟩
    · exact List.idxOf_lt_length_iff.mpr member
    · have inside := common p ⟨e, stored⟩
      rw [all p ((listed p).mpr (valid.ends e p v stored).1)] at inside
      exact Finset.mem_range.mp inside
  · intro v member d dominates
    rw [all v member, Finset.mem_range, List.idxOf_lt_length_iff, listed]
    exact labelled_of_reachable valid entry ((connected v ((listed v).mp member)).of_dominates dominates)

private theorem mem_walk_of_fixed {curDom : List BitSet} (valid : g.Consistent) (listed : ∀ v, v ∈ vs ↔ (g.vertexLabel v).isSome)
    (entry : (g.vertexLabel start).isSome)
    (fixed : ∀ v ∈ vs, ∀ j, j ∈ at' vs curDom v ↔ Next g start vs curDom v j) {d v : Nat} (known : d ∈ vs)
    (inside : vs.idxOf d ∈ at' vs curDom v) {walk : List Nat} (trace : Trace g.Adjacent start v walk) : d ∈ walk := by
  induction trace with
  | root =>
    rcases (fixed start ((listed start).mpr entry) _).mp inside with same | ⟨inner, -⟩
    · rw [(List.idxOf_inj known).mp same]
      exact List.mem_singleton_self start
    · exact absurd rfl inner
  | @step u v walk trace link ih =>
    have member : v ∈ vs := (listed v).mpr (labelled_of_reachable valid entry ⟨_, trace.step link⟩)
    rcases (fixed v member _).mp inside with same | ⟨-, -, common⟩
    · rw [(List.idxOf_inj known).mp same]
      exact List.mem_cons_self
    · exact List.mem_cons_of_mem v (ih (common u link))

private theorem iteration_returns (valid : g.Consistent) (nodup : vs.Nodup)
    (listed : ∀ v, v ∈ vs ↔ (g.vertexLabel v).isSome) (entry : (g.vertexLabel start).isSome) (connected : Connected g start)
    {fuel : Nat} (enough : total vs (List.replicate vs.length (Finset.range vs.length)) < fuel) :
    ∃ curDom, (Outcome.repeated (fun _ curDom => do
        let next ← nextDom g start (positions vs) vs curDom
        return if next = curDom then none else some next) fuel 0
        (List.replicate (positions vs).size (Finset.range (positions vs).size)) : Outcome ε _) = .returns curDom ∧
      Bounded g start vs curDom ∧ ∀ v ∈ vs, ∀ j, j ∈ at' vs curDom v ↔ Next g start vs curDom v j := by
  rw [size_positions nodup]
  have ran := Outcome.repeated_returns (ε := ε) (fun _ curDom => do
      let next ← nextDom g start (positions vs) vs curDom
      return if next = curDom then none else some next) (total vs (List.replicate vs.length (Finset.range vs.length)))
    (fun turn curDom => Bounded g start vs curDom ∧
      total vs curDom + turn ≤ total vs (List.replicate vs.length (Finset.range vs.length))) ?_ fuel
    (List.replicate vs.length (Finset.range vs.length)) ⟨.initial valid listed entry connected, Nat.le_refl _⟩
    (Nat.zero_le _) enough
  · obtain ⟨curDom, returned, turn, ⟨bounded, -⟩, stopped⟩ := ran
    refine ⟨curDom, returned, bounded, ?_⟩
    obtain ⟨next, stepped, -, exact⟩ := nextDom_returns (ε := ε) valid nodup listed bounded.length start
    simp only [stepped, Outcome.returns_bind, Outcome.pure_eq, Outcome.returns.injEq, ite_eq_left_iff, reduceCtorEq,
      imp_false, not_not] at stopped
    exact stopped ▸ exact
  · rintro turn curDom ⟨bounded, count⟩
    obtain ⟨next, stepped, length, exact⟩ := nextDom_returns (ε := ε) valid nodup listed bounded.length start
    by_cases same : next = curDom
    · exact .inl (by simp only [stepped, Outcome.returns_bind, same, if_true, Outcome.pure_eq])
    · have less := total_lt nodup length bounded.length
        (fun v member j inside => bounded.down v member j ((exact v member j).mp inside)) same
      refine .inr ⟨next, ?_, ⟨bounded.step valid listed connected length exact, by omega⟩, by omega⟩
      simp only [stepped, Outcome.returns_bind, same, if_false, Outcome.pure_eq]

/-- The list that is made of a set of positions. -/
def sortedList (vs : List Nat) (dom : BitSet) : List Nat :=
  ((dom.sort (· ≤ ·)).map fun a => vs[a]?.getD 0).insertionSort (· ≤ ·)

private theorem each_positions {dom : BitSet} (range : ∀ j ∈ dom, j < vs.length) :
    (Outcome.each (fun a => .unwrap vs[a]?) (dom.sort (· ≤ ·)) : Outcome ε _) =
      .returns ((dom.sort (· ≤ ·)).map fun a => vs[a]?.getD 0) := by
  rw [Outcome.each_eq_returns, List.forall₂_map_right_iff, List.forall₂_same]
  intro a member
  have inside := range a (by simpa using member)
  simp [Outcome.unwrap, inside]

private theorem sortedList_spec (nodup : vs.Nodup) {dom : BitSet} (range : ∀ j ∈ dom, j < vs.length) :
    (sortedList vs dom).Pairwise (· < ·) ∧ ∀ d, d ∈ sortedList vs dom ↔ d ∈ vs ∧ vs.idxOf d ∈ dom := by
  have element : ∀ a ∈ dom.sort (· ≤ ·), ∃ inside : a < vs.length, vs[a]?.getD 0 = vs[a] := by
    intro a member
    have inside := range a (by simpa using member)
    exact ⟨inside, by simp [inside]⟩
  constructor
  · have distinct : ((dom.sort (· ≤ ·)).map fun a => vs[a]?.getD 0).Nodup := by
      apply List.Nodup.map_on _ (Finset.sort_nodup dom (· ≤ ·))
      intro a memberA b memberB same
      obtain ⟨insideA, here⟩ := element a memberA
      obtain ⟨insideB, there⟩ := element b memberB
      rw [here, there] at same
      exact (nodup.getElem_inj_iff).mp same
    have ordered : (sortedList vs dom).Pairwise (· ≤ ·) := List.pairwise_insertionSort _ _
    have apart : (sortedList vs dom).Nodup := (List.perm_insertionSort _ _).nodup_iff.mpr distinct
    exact (ordered.and apart).imp fun both => Nat.lt_of_le_of_ne both.1 both.2
  · intro d
    simp only [sortedList, List.mem_insertionSort, List.mem_map]
    constructor
    · rintro ⟨a, member, rfl⟩
      obtain ⟨inside, here⟩ := element a member
      rw [here, nodup.idxOf_getElem]
      exact ⟨List.getElem_mem inside, by simpa using member⟩
    · rintro ⟨known, inside⟩
      refine ⟨vs.idxOf d, by simpa using inside, ?_⟩
      rw [List.getElem?_idxOf known]
      rfl

private theorem table_returns (nodup : vs.Nodup) {curDom : List BitSet} (bounded : Bounded g start vs curDom)
    (entries : Enumeration (Nat × Nat)) :
    ∃ ret : Std.ExtTreeMap Nat (List Nat), (Outcome.fold (fun ret entry => do
        let dom ← .unwrap curDom[entry.2]?
        let res ← Outcome.each (fun a => .unwrap vs[a]?) (dom.sort (· ≤ ·))
        return ret.insert entry.1 (res.insertionSort (· ≤ ·))) ∅ (entries.list (positions vs).toList) : Outcome ε _) =
          .returns ret ∧
      ∀ v ∈ vs, ret[v]? = some (sortedList vs (at' vs curDom v)) := by
  have paired : ∀ v i, (v, i) ∈ (positions vs).toList ↔ v ∈ vs ∧ i = vs.idxOf v := by
    intro v i
    rw [Std.ExtTreeMap.mem_toList_iff_getElem?_eq_some]
    constructor
    · intro found
      have member := List.mem_of_getElem? (getElem?_positions found)
      rw [positions_idxOf nodup member] at found
      exact ⟨member, (Option.some.inj found).symm⟩
    · rintro ⟨member, rfl⟩
      exact positions_idxOf nodup member
  have ran := Outcome.fold_returns (ε := ε) (f := fun (ret : Std.ExtTreeMap Nat (List Nat)) (entry : Nat × Nat) => do
      let dom ← .unwrap curDom[entry.2]?
      let res ← Outcome.each (fun a => .unwrap vs[a]?) (dom.sort (· ≤ ·))
      return ret.insert entry.1 (res.insertionSort (· ≤ ·)))
    (fun rest ret => rest ⊆ (positions vs).toList ∧
      ∀ v ∈ vs, (v, vs.idxOf v) ∉ rest → ret[v]? = some (sortedList vs (at' vs curDom v))) ?_
    (entries.list (positions vs).toList) ∅ ⟨fun entry member => by simpa using member, fun v member absent => ?_⟩
  · obtain ⟨ret, returned, -, holds⟩ := ran
    exact ⟨ret, returned, fun v member => holds v member List.not_mem_nil⟩
  · rintro ⟨w, i⟩ rest ret ⟨inside, holds⟩
    obtain ⟨member, rfl⟩ := (paired w i).mp (inside List.mem_cons_self)
    refine ⟨ret.insert w (sortedList vs (at' vs curDom w)), ?_, fun entry later => inside (List.mem_cons_of_mem _ later), ?_⟩
    · simp only [getElem?_at bounded.length member, Outcome.unwrap_eq_returns.mpr rfl, Outcome.returns_bind,
        each_positions (bounded.range w member), Outcome.pure_eq, sortedList]
    · intro v known absent
      simp only [Std.ExtTreeMap.getElem?_insert, Nat.compare_eq_eq]
      split_ifs with same
      · rw [same]
      · refine holds v known fun later => ?_
        rcases List.mem_cons.mp later with first | later
        · exact same (congrArg Prod.fst first).symm
        · exact absent later
  · exact absurd (by simpa using (paired v _).mpr ⟨member, rfl⟩) absent

end Iteration

/-- Both algorithms end, and the list of a vertex holds, in order, what is met on every walk to it, which are its
ancestors in the table of immediate dominators. -/
theorem dominators_exact (valid : g.Consistent) (entry : (g.vertexLabel start).isSome) (connected : Connected g start)
    (vertices : Enumeration Nat) (entries : Enumeration (Nat × Nat)) : ∃ enough, ∀ fuel, enough ≤ fuel →
      ∃ table idom, (dominators g vertices entries fuel start : Outcome ε _) = .returns table ∧
        (immediateDominator g fuel start : Outcome ε _) = .returns idom ∧
        ∀ v, (g.vertexLabel v).isSome → ∃ list ancestors, table[v]? = some list ∧ list.Pairwise (· < ·) ∧
          Lineage start (idom[·]?) v ancestors ∧
          ∀ d, (d ∈ list ↔ Dominates g.Adjacent start d v) ∧ (d ∈ list ↔ d ∈ ancestors) := by
  have listed : ∀ v, v ∈ g.vertices vertices ↔ (g.vertexLabel v).isSome := by
    intro v
    simp [AdjacencyList.vertices, vertexLabel]
  have nodup : (g.vertices vertices).Nodup := (vertices.perm _).nodup_iff.mpr Std.ExtTreeMap.nodup_keys
  obtain ⟨enough, returns⟩ := DominatorTotal.immediateDominator_returns (ε := ε) valid entry
  refine ⟨max enough (total (g.vertices vertices) (List.replicate (g.vertices vertices).length
    (Finset.range (g.vertices vertices).length)) + 1), fun fuel large => ?_⟩
  obtain ⟨idom, finished⟩ := returns fuel (by omega)
  have tree := tree_of_connected valid entry connected finished
  have fuelled : total (g.vertices vertices) (List.replicate (g.vertices vertices).length
      (Finset.range (g.vertices vertices).length)) < fuel := by omega
  obtain ⟨curDom, iterated, bounded, fixed⟩ := iteration_returns (ε := ε) valid nodup listed entry connected fuelled
  obtain ⟨table, made, lists⟩ := table_returns (ε := ε) nodup bounded entries
  refine ⟨table, idom, ?_, finished, fun v labelled => ?_⟩
  · simp only [dominators, iterated, Outcome.returns_bind, made]
  · have member := (listed v).mpr labelled
    obtain ⟨sorted, members⟩ := sortedList_spec nodup (bounded.range v member)
    obtain ⟨ancestors, lineage⟩ := tree.lineage labelled
    have exact : ∀ d, d ∈ sortedList (g.vertices vertices) (at' (g.vertices vertices) curDom v) ↔
        Dominates g.Adjacent start d v := by
      intro d
      rw [members]
      constructor
      · rintro ⟨known, inside⟩ walk trace
        exact mem_walk_of_fixed valid listed entry fixed known inside trace
      · intro dominates
        refine ⟨(listed d).mpr ?_, bounded.keeps v member d dominates⟩
        exact labelled_of_reachable valid entry ((connected v labelled).of_dominates dominates)
    exact ⟨_, ancestors, lists v member, sorted, lineage, fun d => ⟨exact d, (exact d).trans (tree.mem_lineage_iff lineage).symm⟩⟩

theorem twoBlocks_dominators : ∃ enough, ∀ fuel, enough ≤ fuel →
    ∃ table idom, (dominators (twoBlocks 1) .canonical .reversed fuel 0 : Outcome Empty _) = .returns table ∧
      (immediateDominator (twoBlocks 1) fuel 0 : Outcome Empty _) = .returns idom ∧
      ∀ v, ((twoBlocks 1).vertexLabel v).isSome → ∃ list ancestors, table[v]? = some list ∧ list.Pairwise (· < ·) ∧
        Lineage 0 (idom[·]?) v ancestors ∧
        ∀ d, (d ∈ list ↔ Dominates (twoBlocks 1).Adjacent 0 d v) ∧ (d ∈ list ↔ d ∈ ancestors) :=
  dominators_exact (.ofLists _ _) (by decide) (connected_twoBlocks (by decide) (by decide))
    .canonical .reversed

end Panopticon.Proofs.Dominators
