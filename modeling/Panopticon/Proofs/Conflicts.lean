import Panopticon.Proofs.Layers

/-! Marking of conflicts. The code looks at the incoming edges of one vertex at a time, and only at
those that come from virtual vertices, so what it can find are edges between virtual vertices. -/

namespace Panopticon.Proofs.Conflicts
open Panopticon.Library Panopticon.Sugiyama Panopticon.Proofs.Layers

variable {ε : Type} {g : AdjacencyList Nat Nat} {order : List (List Nat)} {rank : Std.ExtTreeMap Nat Int} {virtStart i v : Nat}

def isVirtual (virtStart : Nat) (g : AdjacencyList Nat Nat) (v : Nat) : Bool := (g.vertexLabel v).any (virtStart ≤ ·)

/-- `arc` is an edge between the ranks `i` and `i + 1`, in one direction or the other, with `u` above and `v` below. -/
structure Spans (g : AdjacencyList Nat Nat) (order : List (List Nat)) (i : Nat) (arc : Nat × Nat) (u v : Nat) : Prop where
  edge : g.Adjacent arc.1 arc.2
  ends : arc = (u, v) ∨ arc = (v, u)
  upper : rankOf order u = i
  lower : rankOf order v = i + 1

def Inner (virtStart : Nat) (g : AdjacencyList Nat Nat) (arc : Nat × Nat) : Prop :=
  isVirtual virtStart g arc.1 = true ∧ isVirtual virtStart g arc.2 = true

/-- Two edges between the ranks `i` and `i + 1` that cross. -/
def Crosses (g : AdjacencyList Nat Nat) (order : List (List Nat)) (i : Nat) (arc arc' : Nat × Nat) : Prop :=
  ∃ u v u' v', Spans g order i arc u v ∧ Spans g order i arc' u' v' ∧
    (placeOf order u < placeOf order u' ∧ placeOf order v' < placeOf order v ∨
      placeOf order u' < placeOf order u ∧ placeOf order v < placeOf order v')

/-- A conflict of type 1: an edge that is not inner and crosses one that is. -/
def Conflict (virtStart : Nat) (g : AdjacencyList Nat Nat) (order : List (List Nat)) (i : Nat) (arc : Nat × Nat) : Prop :=
  ¬Inner virtStart g arc ∧ ∃ inner, Inner virtStart g inner ∧ Crosses g order i arc inner

def Processed (order : List (List Nat)) (i : Nat) : Prop := 1 ≤ i ∧ i + 3 ≤ order.length

def virtualAt (virtStart : Nat) (g : AdjacencyList Nat Nat) (order : List (List Nat)) (i w : Nat) : Bool :=
  rankOf order w = i && isVirtual virtStart g w

/-- Virtual vertices of rank `i` with an edge to `v`, in the order of the incoming edges of `v`. -/
def innerSources (virtStart : Nat) (g : AdjacencyList Nat Nat) (order : List (List Nat)) (i v : Nat) : List Nat :=
  ((g.inEdges[v]?.getD []).filterMap g.source).filter (virtualAt virtStart g order i)

/-- The first of the inner edges into a vertex comes from the rightmost of their sources. -/
def RightmostFirst (virtStart : Nat) (g : AdjacencyList Nat Nat) (order : List (List Nat)) (i : Nat) : Prop :=
  ∀ v, isVirtual virtStart g v = true → rankOf order v = i + 1 → ∀ u ∈ (innerSources virtStart g order i v).head?,
    ∀ w ∈ innerSources virtStart g order i v, placeOf order w ≤ placeOf order u

def Ranked (g : AdjacencyList Nat Nat) (order : List (List Nat)) (rank : Std.ExtTreeMap Nat Int) : Prop :=
  ∀ v : Nat, (g.vertexLabel v).isSome → rank[v]? = some (rankOf order v : Int)

def Planar (virtStart : Nat) (g : AdjacencyList Nat Nat) (order : List (List Nat)) : Prop :=
  ∀ i, Processed order i → ∀ arc arc', Inner virtStart g arc → Inner virtStart g arc' → ¬Crosses g order i arc arc'

theorem isVirtual_iff {lb : Nat} (label : g.vertexLabel v = some lb) : isVirtual virtStart g v = true ↔ virtStart ≤ lb := by
  simp [isVirtual, label]

theorem labelled_of_isVirtual (virtual : isVirtual virtStart g v = true) : (g.vertexLabel v).isSome := by
  cases label : g.vertexLabel v with
  | none => simp [isVirtual, label] at virtual
  | some => rfl

theorem virtualAbove_returns (ranked : Ranked g order rank) (virtStart i : Nat) {w : Nat} (labelled : (g.vertexLabel w).isSome) :
    (virtualAbove virtStart rank g i w : Outcome ε Bool) =
      .returns (virtualAt virtStart g order i w) := by
  obtain ⟨lb, label⟩ := Option.isSome_iff_exists.mp labelled
  have level := ranked w labelled
  by_cases here : rankOf order w = i
  · simp [virtualAbove, level, virtualAt, here, label, isVirtual, Outcome.unwrap]
  · simp [virtualAbove, level, virtualAt, here, Outcome.unwrap]

theorem exists_sources (valid : g.Consistent) (labelled : (g.vertexLabel v).isSome) :
    ∃ into, g.inEdges[v]? = some into ∧
      ∀ e ∈ into, ∃ w, g.source e = some w ∧ g.target e = some v ∧ (g.vertexLabel w).isSome := by
  obtain ⟨into, list⟩ := Option.isSome_iff_exists.mp ((valid.inKeys v).mpr labelled)
  refine ⟨into, list, fun e member => ?_⟩
  obtain ⟨w, edge⟩ := ((valid.inList v into list).2 e).mp member
  exact ⟨w, by simp [AdjacencyList.source, edge], by simp [AdjacencyList.target, edge], (valid.ends e w v edge).1⟩

theorem mem_innerSources (valid : g.Consistent) (labelled : (g.vertexLabel v).isSome) {w : Nat} :
    w ∈ innerSources virtStart g order i v ↔ g.Adjacent w v ∧ rankOf order w = i ∧ isVirtual virtStart g w = true := by
  obtain ⟨into, list⟩ := Option.isSome_iff_exists.mp ((valid.inKeys v).mpr labelled)
  have edges := (valid.inList v into list).2
  simp only [innerSources, list, Option.getD_some, List.mem_filter, List.mem_filterMap, virtualAt,
    Bool.and_eq_true, decide_eq_true_eq]
  apply and_congr_left'
  constructor
  · intro holds
    obtain ⟨e, member, source⟩ := holds
    obtain ⟨x, edge⟩ := (edges e).mp member
    simp only [AdjacencyList.source, edge, Option.map_some, Option.some.injEq] at source
    exact ⟨e, source ▸ edge⟩
  · intro holds
    obtain ⟨e, edge⟩ := holds
    exact ⟨e, (edges e).mpr ⟨w, edge⟩, by simp [AdjacencyList.source, edge]⟩

private theorem innerEdge_returns (ranked : Ranked g order rank) (virtStart i : Nat) (labelled : (g.vertexLabel v).isSome)
    {es : List Nat} (sources : ∀ e ∈ es, ∃ w, g.source e = some w ∧ g.target e = some v ∧ (g.vertexLabel w).isSome) :
    ∃ first, (innerEdge virtStart rank g i v es : Outcome ε (Option Nat)) = .returns first ∧
      (first.isSome → (first.bind g.source).isSome) ∧
      first.bind g.source = if isVirtual virtStart g v then
        ((es.filterMap g.source).filter (virtualAt virtStart g order i)).head? else none := by
  obtain ⟨lb, label⟩ := Option.isSome_iff_exists.mp labelled
  induction es with
  | nil => exact ⟨none, rfl, by simp, by simp⟩
  | cons e es ih =>
    obtain ⟨first, returned, present, found⟩ := ih fun e member => sources e (List.mem_cons_of_mem _ member)
    obtain ⟨w, source, -, known⟩ := sources e List.mem_cons_self
    have above := virtualAbove_returns (ε := ε) ranked virtStart i known
    rw [List.filterMap_cons_some source]
    by_cases test : virtualAt virtStart g order i w = true
    · rw [List.filter_cons_of_pos test, List.head?_cons]
      by_cases virtual : virtStart ≤ lb
      · refine ⟨some e, ?_, by simp [source], by simp [source, (isVirtual_iff label).mpr virtual]⟩
        simp [innerEdge, source, above, test, label, virtual, Outcome.unwrap]
      · have real : ¬isVirtual virtStart g v = true := fun is_virtual => virtual ((isVirtual_iff label).mp is_virtual)
        rw [if_neg real] at found
        refine ⟨first, ?_, present, by rw [found, if_neg real]⟩
        simp [innerEdge, source, above, test, label, virtual, returned, Outcome.unwrap]
    · rw [List.filter_cons_of_neg test]
      refine ⟨first, ?_, present, found⟩
      simp [innerEdge, source, above, test, returned, Outcome.unwrap]

private theorem markEdge_returns (layered : Layered g order) (ranked : Ranked g order rank) (virtStart : Nat) {upper : List Nat}
    (found : order[i]? = some upper) (k0 k1 : Nat) {e w : Nat} (source : g.source e = some w) (target : g.target e = some v)
    (labelled : (g.vertexLabel w).isSome) (ret : List (Nat × Nat)) :
    ∃ next, (markEdge virtStart upper rank g i k0 k1 ret e : Outcome ε (List (Nat × Nat))) = .returns next ∧
      ∀ arc, arc ∈ next ↔ arc ∈ ret ∨ virtualAt virtStart g order i w = true ∧
        (placeOf order w < k0 ∨ k1 < placeOf order w) ∧ arc = (w, v) := by
  have above := virtualAbove_returns (ε := ε) ranked virtStart i labelled
  by_cases test : virtualAt virtStart g order i w = true
  · have place : (position upper w : Outcome ε Nat) = .returns (placeOf order w) := by
      apply position_returns layered.nodup found
      apply (layered.mem_iff found).mpr
      simp only [virtualAt, Bool.and_eq_true, decide_eq_true_eq] at test
      exact ⟨labelled, test.1⟩
    by_cases outside : placeOf order w < k0 ∨ k1 < placeOf order w
    · refine ⟨ret ++ [(w, v)], ?_, fun arc => by simp [test, outside]⟩
      simp [markEdge, source, target, above, test, place, outside, Outcome.unwrap]
    · refine ⟨ret, ?_, fun arc => by simp [outside]⟩
      simp [markEdge, source, target, above, test, place, outside, Outcome.unwrap]
  · exact ⟨ret, by simp [markEdge, source, above, test, Outcome.unwrap], fun arc => by simp [test]⟩

/-- The incoming edges of `v` add pairs of the sources outside of the bounds with `v`. -/
theorem markEdges_returns (layered : Layered g order) (ranked : Ranked g order rank) (virtStart : Nat)
    (labelled : (g.vertexLabel v).isSome) {upper : List Nat} (found : order[i]? = some upper) (k0 k1 : Nat)
    (ret : List (Nat × Nat)) :
    ∃ next, (markEdges virtStart upper rank g i v k0 k1 ret : Outcome ε (List (Nat × Nat))) = .returns next ∧
      ∀ arc, arc ∈ next ↔ arc ∈ ret ∨ ∃ w ∈ innerSources virtStart g order i v,
        (placeOf order w < k0 ∨ k1 < placeOf order w) ∧ arc = (w, v) := by
  obtain ⟨into, list, sources⟩ := exists_sources layered.valid labelled
  have step : ∀ e ∈ into, ∀ ret, ∃ next,
      (markEdge virtStart upper rank g i k0 k1 ret e : Outcome ε (List (Nat × Nat))) = .returns next ∧
        ∀ arc, arc ∈ next ↔ arc ∈ ret ∨ ∃ w, g.source e = some w ∧ virtualAt virtStart g order i w = true ∧
          (placeOf order w < k0 ∨ k1 < placeOf order w) ∧ arc = (w, v) := by
    intro e member ret
    obtain ⟨w, source, target, known⟩ := sources e member
    obtain ⟨next, returned, exactly⟩ := markEdge_returns (ε := ε) layered ranked virtStart found k0 k1 source target known ret
    exact ⟨next, returned, fun arc => by simp [exactly, source]⟩
  obtain ⟨next, returned, exactly⟩ := Outcome.fold_collects step ret
  simp only [markEdges, AdjacencyList.incoming, list, Outcome.unwrap, Outcome.returns_bind]
  refine ⟨next, returned, fun arc => ?_⟩
  rw [exactly]
  apply or_congr_right
  simp only [innerSources, list, Option.getD_some, List.mem_filter, List.mem_filterMap]
  constructor
  · intro holds
    obtain ⟨e, member, w, source, test, rest⟩ := holds
    exact ⟨w, ⟨⟨e, member, source⟩, test⟩, rest⟩
  · intro holds
    obtain ⟨w, ⟨⟨e, member, source⟩, test⟩, rest⟩ := holds
    exact ⟨e, member, w, source, test, rest⟩

/-- The pairs that the code can find at a vertex: inner edges from sources beyond the first one. -/
def Marked (virtStart : Nat) (g : AdjacencyList Nat Nat) (order : List (List Nat)) (i v : Nat) (arc : Nat × Nat) : Prop :=
  isVirtual virtStart g v = true ∧ ∃ u ∈ (innerSources virtStart g order i v).head?,
    ∃ w ∈ innerSources virtStart g order i v, placeOf order u < placeOf order w ∧ arc = (w, v)

/-- The loop has come to the place `n`, and `k0` is the place of an inner source of an earlier vertex. -/
structure Marking (virtStart : Nat) (g : AdjacencyList Nat Nat) (order : List (List Nat)) (i n : Nat) (lower : List Nat)
    (ret : List (Nat × Nat)) (s : Sweep) : Prop where
  lag : s.l ≤ n
  left : s.k0 = 0 ∨ ∃ v ∈ lower, placeOf order v < n ∧ isVirtual virtStart g v = true ∧
    ∃ u ∈ innerSources virtStart g order i v, s.k0 = placeOf order u
  found : ∀ arc, arc ∈ s.ret ↔ arc ∈ ret ∨ ∃ v ∈ lower, placeOf order v < n ∧ Marked virtStart g order i v arc

/-- Inner edges into two vertices of the lower rank have sources in the same order. -/
theorem sources_ordered (layered : Layered g order)
    (planar : ∀ arc arc', Inner virtStart g arc → Inner virtStart g arc' → ¬Crosses g order i arc arc') {u u' v' : Nat}
    (virtual : isVirtual virtStart g v = true) (virtual' : isVirtual virtStart g v' = true) (lower : rankOf order v = i + 1)
    (lower' : rankOf order v' = i + 1) (source : u ∈ innerSources virtStart g order i v)
    (source' : u' ∈ innerSources virtStart g order i v') (before : placeOf order v < placeOf order v') :
    placeOf order u ≤ placeOf order u' := by
  rw [mem_innerSources layered.valid (labelled_of_isVirtual virtual)] at source
  rw [mem_innerSources layered.valid (labelled_of_isVirtual virtual')] at source'
  by_contra crossed
  exact planar (u, v) (u', v') ⟨source.2.2, virtual⟩ ⟨source'.2.2, virtual'⟩ ⟨u, v, u', v',
    ⟨source.1, .inl rfl, source.2.1, lower⟩, ⟨source'.1, .inl rfl, source'.2.1, lower'⟩, .inr ⟨by omega, before⟩⟩

private theorem exists_before_succ (nodup : order.flatten.Nodup) {lower : List Nat} (found : order[i + 1]? = some lower) {n : Nat}
    (place : lower[n]? = some v) (p : Nat → Prop) :
    (∃ x ∈ lower, placeOf order x < n + 1 ∧ p x) ↔ (∃ x ∈ lower, placeOf order x < n ∧ p x) ∨ p v := by
  have here := placeOf_eq nodup found place
  constructor
  · intro given
    obtain ⟨x, member, before, holds⟩ := given
    by_cases same : placeOf order x = n
    · have there := place_of_mem nodup found member
      rw [same, place] at there
      cases there
      exact .inr holds
    · exact .inl ⟨x, member, by omega, holds⟩
  · intro either
    rcases either with ⟨x, member, before, holds⟩ | holds
    · exact ⟨x, member, by omega, holds⟩
    · exact ⟨v, List.mem_of_getElem? place, by omega, holds⟩

private theorem markVertex_returns (layered : Layered g order) (ranked : Ranked g order rank)
    (planar : ∀ arc arc', Inner virtStart g arc → Inner virtStart g arc' → ¬Crosses g order i arc arc') {upper lower : List Nat}
    (foundUpper : order[i]? = some upper) (foundLower : order[i + 1]? = some lower) {n : Nat} (place : lower[n]? = some v)
    {ret : List (Nat × Nat)} {s : Sweep} (marking : Marking virtStart g order i n lower ret s) :
    ∃ next, (markVertex virtStart upper lower rank g i s n : Outcome ε Sweep) = .returns next ∧
      Marking virtStart g order i (n + 1) lower ret next := by
  have member := List.mem_of_getElem? place
  have here := placeOf_eq layered.nodup foundLower place
  obtain ⟨labelled, rankV⟩ := (layered.mem_iff foundLower).mp member
  obtain ⟨into, list, sources⟩ := exists_sources layered.valid labelled
  obtain ⟨first, returned, present, head⟩ := innerEdge_returns (ε := ε) ranked virtStart i labelled sources
  have inside : n ≠ lower.length := (List.getElem?_eq_some_iff.mp place).1.ne
  have extend := exists_before_succ layered.nodup foundLower place
  have spread : (if isVirtual virtStart g v then (innerSources virtStart g order i v).head? else none) = first.bind g.source := by
    simp only [head, innerSources, list, Option.getD_some]
  cases first with
  | none =>
    refine ⟨s, ?_, by have lag := marking.lag; omega, ?_, fun arc => ?_⟩
    · simp [markVertex, place, AdjacencyList.incoming, list, returned, inside, Outcome.unwrap]
    · apply marking.left.imp_right
      intro holds
      obtain ⟨x, member, before, rest⟩ := holds
      exact ⟨x, member, by omega, rest⟩
    · have nothing : ¬Marked virtStart g order i v arc := by
        intro holds
        obtain ⟨virtual, u, top, _⟩ := holds
        rw [if_pos virtual] at spread
        simp [spread] at top
      rw [marking.found, extend, or_iff_left nothing]
  | some e =>
    obtain ⟨u, source⟩ := Option.isSome_iff_exists.mp (present rfl)
    rw [source] at spread
    have virtual : isVirtual virtStart g v = true := by
      by_contra real
      simp [real] at spread
    rw [if_pos virtual] at spread
    have top := List.mem_of_head? spread
    obtain ⟨-, rankU, virtualU⟩ := (mem_innerSources layered.valid labelled).mp top
    have placeU : (position upper u : Outcome ε Nat) = .returns (placeOf order u) :=
      position_returns layered.nodup foundUpper ((layered.mem_iff foundUpper).mpr ⟨labelled_of_isVirtual virtualU, rankU⟩)
    have step (turn : Nat) (_ : turn ∈ List.range (n + 1 - s.l)) (ret : List (Nat × Nat)) :=
      markEdges_returns (ε := ε) layered ranked virtStart labelled foundUpper s.k0 (placeOf order u) ret
    obtain ⟨next, collected, exactly⟩ := Outcome.fold_collects step s.ret
    have from_source : g.source e = some u := source
    refine ⟨⟨placeOf order u, max s.l (n + 1), next⟩, ?_, ?_, .inr ⟨v, member, by omega, virtual, u, top, rfl⟩, fun arc => ?_⟩
    · simp [markVertex, place, AdjacencyList.incoming, list, returned, from_source, placeU, collected, Outcome.unwrap]
    · have lag := marking.lag
      simp only
      omega
    · -- no inner edge comes from the left of `k0`
      have right (w : Nat) (source : w ∈ innerSources virtStart g order i v) : ¬placeOf order w < s.k0 := by
        rcases marking.left with zero | ⟨x, memberX, before, virtualX, y, sourceY, same⟩
        · omega
        · rw [same, not_lt]
          exact sources_ordered layered planar virtualX virtual (rankOf_eq layered.nodup foundLower memberX) rankV sourceY source
            (by omega)
      have turns : ∃ turn, turn ∈ List.range (n + 1 - s.l) := by
        have lag := marking.lag
        exact ⟨0, List.mem_range.mpr (by omega)⟩
      simp only
      rw [exactly, marking.found, extend, or_assoc]
      apply or_congr_right
      apply or_congr_right
      constructor
      · intro holds
        obtain ⟨_, _, w, source, outside, same⟩ := holds
        exact ⟨virtual, u, spread, w, source, outside.resolve_left (right w source), same⟩
      · intro holds
        obtain ⟨_, u', top', w, source, beyond, same⟩ := holds
        obtain ⟨turn, within⟩ := turns
        rw [spread, Option.mem_some_iff] at top'
        exact ⟨turn, within, w, source, .inr (top' ▸ beyond), same⟩

private theorem markRow_returns (layered : Layered g order) (ranked : Ranked g order rank)
    (planar : ∀ arc arc', Inner virtStart g arc → Inner virtStart g arc' → ¬Crosses g order i arc arc') {upper lower : List Nat}
    (foundUpper : order[i]? = some upper) (foundLower : order[i + 1]? = some lower) (ret : List (Nat × Nat)) :
    ∃ s, (Outcome.fold (markVertex virtStart upper lower rank g i) ⟨0, 0, ret⟩ (List.range lower.length) :
        Outcome ε Sweep) = .returns s ∧
      ∀ arc, arc ∈ s.ret ↔ arc ∈ ret ∨ ∃ v, rankOf order v = i + 1 ∧ Marked virtStart g order i v arc := by
  obtain ⟨s, returned, n, nothing, marking⟩ := Outcome.fold_returns (f := markVertex (ε := ε) virtStart upper lower rank g i)
    (fun rest s => ∃ n, rest = List.range' n (lower.length - n) ∧ Marking virtStart g order i n lower ret s)
    (fun item rest s given => by
      obtain ⟨n, left, marking⟩ := given
      obtain ⟨len, more⟩ : ∃ len, lower.length - n = len + 1 := by
        apply Nat.exists_eq_succ_of_ne_zero
        intro zero
        simp [zero] at left
      rw [more, List.range'_succ, List.cons.injEq] at left
      obtain ⟨rfl, rfl⟩ := left
      have inside : item < lower.length := by omega
      obtain ⟨next, returned, kept⟩ := markVertex_returns (ε := ε) layered ranked planar foundUpper foundLower
        (List.getElem?_eq_getElem inside) marking
      exact ⟨next, returned, item + 1, by rw [show lower.length - (item + 1) = len by omega], kept⟩)
    (List.range lower.length) ⟨0, 0, ret⟩ ⟨0, by rw [List.range_eq_range', Nat.sub_zero], Nat.le_refl _, .inl rfl, by simp⟩
  refine ⟨s, returned, fun arc => ?_⟩
  have done : lower.length ≤ n := by
    have length := congrArg List.length nothing
    simp only [List.length_nil, List.length_range'] at length
    omega
  rw [marking.found]
  apply or_congr_right
  constructor
  · intro holds
    obtain ⟨v, member, _, marked⟩ := holds
    exact ⟨v, rankOf_eq layered.nodup foundLower member, marked⟩
  · intro holds
    obtain ⟨v, rank, marked⟩ := holds
    have member := (layered.mem_iff foundLower).mpr ⟨labelled_of_isVirtual marked.1, rank⟩
    have place := (List.getElem?_eq_some_iff.mp (place_of_mem layered.nodup foundLower member)).1
    exact ⟨v, member, by omega, marked⟩

private theorem markType1Conflicts_returns (layered : Layered g order) (ranked : Ranked g order rank)
    (planar : Planar virtStart g order) :
    ∃ ret, (markType1Conflicts virtStart order rank g : Outcome ε (List (Nat × Nat))) = .returns ret ∧
      ∀ arc, arc ∈ ret ↔ ∃ i, Processed order i ∧ ∃ v, rankOf order v = i + 1 ∧ Marked virtStart g order i v arc := by
  by_cases short : order.length < 3
  · refine ⟨[], by simp [markType1Conflicts, short], fun arc => ?_⟩
    simp only [List.not_mem_nil, false_iff, Processed]
    intro holds
    obtain ⟨i, processed, _⟩ := holds
    omega
  · have step : ∀ i ∈ List.range' 1 (order.length - 3), ∀ ret, ∃ next, (do
          let upper ← .unwrap order[i]?
          let lower ← .unwrap order[i + 1]?
          let s ← Outcome.fold (markVertex virtStart upper lower rank g i) ⟨0, 0, ret⟩ (List.range lower.length)
          return s.ret : Outcome ε (List (Nat × Nat))) = .returns next ∧
        ∀ arc, arc ∈ next ↔ arc ∈ ret ∨ ∃ v, rankOf order v = i + 1 ∧ Marked virtStart g order i v arc := by
      intro i member ret
      rw [List.mem_range'_1] at member
      have foundUpper : order[i]? = some order[i] := List.getElem?_eq_getElem (by omega)
      have foundLower : order[i + 1]? = some order[i + 1] := List.getElem?_eq_getElem (by omega)
      obtain ⟨s, returned, exactly⟩ := markRow_returns (ε := ε) layered ranked (planar i ⟨member.1, by omega⟩) foundUpper
        foundLower ret
      exact ⟨s.ret, by simp [foundUpper, foundLower, returned, Outcome.unwrap], exactly⟩
    obtain ⟨ret, returned, exactly⟩ := Outcome.fold_collects step []
    refine ⟨ret, ?_, fun arc => ?_⟩
    · rw [markType1Conflicts, if_neg short, ← returned]
    · simp only [exactly, List.not_mem_nil, false_or, List.mem_range'_1, Processed]
      apply exists_congr
      intro i
      apply and_congr_left'
      omega

/-- The result is right where there is no conflict and no pair that the code takes for one. -/
theorem conflicts_exact_iff (layered : Layered g order) (ranked : Ranked g order rank) (planar : Planar virtStart g order) :
    ∃ ret, (markType1Conflicts virtStart order rank g : Outcome ε (List (Nat × Nat))) = .returns ret ∧
      (((∀ arc, arc ∈ ret ↔ ∃ i, Processed order i ∧ Conflict virtStart g order i arc) ∧ ∀ arc ∈ ret, ¬Inner virtStart g arc) ↔
        ∀ i, Processed order i → (∀ arc, ¬Conflict virtStart g order i arc) ∧ RightmostFirst virtStart g order i) := by
  obtain ⟨ret, returned, exactly⟩ := markType1Conflicts_returns (ε := ε) layered ranked planar
  refine ⟨ret, returned, ?_, ?_⟩
  · intro holds i processed
    obtain ⟨right, never⟩ := holds
    refine ⟨fun arc conflict => ?_, ?_⟩
    · have found := (right arc).mpr ⟨i, processed, conflict⟩
      obtain ⟨_, _, v, _, virtual, _, _, w, source, _, rfl⟩ := (exactly arc).mp found
      have above := (mem_innerSources layered.valid (labelled_of_isVirtual virtual)).mp source
      exact conflict.1 ⟨above.2.2, virtual⟩
    · intro v virtual lower u top w source
      by_contra beyond
      have above := (mem_innerSources layered.valid (labelled_of_isVirtual virtual)).mp source
      apply never (w, v) _ ⟨above.2.2, virtual⟩
      exact (exactly (w, v)).mpr ⟨i, processed, v, lower, virtual, u, top, w, source, by omega, rfl⟩
  · intro clear
    have nothing (arc : Nat × Nat) : arc ∉ ret := by
      intro found
      obtain ⟨i, processed, v, lower, virtual, u, top, w, source, beyond, _⟩ := (exactly arc).mp found
      have inside := (clear i processed).2 v virtual lower u top w source
      omega
    refine ⟨fun arc => ?_, fun arc found => absurd found (nothing arc)⟩
    rw [iff_false_left (nothing arc)]
    intro holds
    obtain ⟨i, processed, conflict⟩ := holds
    exact (clear i processed).1 arc conflict

theorem Spans.unique {arc : Nat × Nat} {u u' v' : Nat} (spans : Spans g order i arc u v) (spans' : Spans g order i arc u' v') :
    u = u' ∧ v = v' := by
  have upper := spans.upper
  have lower := spans'.lower
  rcases spans.ends with same | same <;> rcases spans'.ends with same' | same'
  all_goals
    rw [same, Prod.mk.injEq] at same'
    obtain ⟨rfl, rfl⟩ := same'
  · exact ⟨rfl, rfl⟩
  · omega
  · omega
  · exact ⟨rfl, rfl⟩

private theorem not_crosses_self (arc : Nat × Nat) : ¬Crosses g order i arc arc := by
  intro holds
  obtain ⟨u, v, u', v', spans, spans', crossed⟩ := holds
  obtain ⟨rfl, rfl⟩ := spans.unique spans'
  omega

def crossedArcs : List (Nat × Nat × Nat) := [(0, 0, 1), (1, 0, 2), (2, 1, 4), (3, 2, 3), (4, 3, 5), (5, 4, 5)]

/-- The edge from 1 to 4 is inner, and the edge from 2 to 3 crosses it. -/
def crossed : AdjacencyList Nat Nat := .ofLists [0, 10, 1, 2, 11, 3] crossedArcs

def crossedOrder : List (List Nat) := [[0], [1, 2], [3, 4], [5]]

def crossedRank : Std.ExtTreeMap Nat Int := .ofList ([(0, 0), (1, 1), (2, 1), (3, 2), (4, 2), (5, 3)] : List (Nat × Int))

theorem crossed_layered : Layered crossed crossedOrder := .ofLists (by decide) (by decide)

theorem crossed_lists : crossed.Lists [0, 10, 1, 2, 11, 3] crossedArcs := .ofLists (by decide)

theorem crossed_labelled (labelled : (crossed.vertexLabel v).isSome) : v < 6 := by
  rw [crossed_lists.vertexLabel] at labelled
  simpa using labelled

theorem crossed_ranked : Ranked crossed crossedOrder crossedRank := by
  intro v labelled
  have all : ∀ v < 6, crossedRank[v]? = some (rankOf crossedOrder v : Int) := by decide
  exact all v (crossed_labelled labelled)

theorem crossed_arc {arc : Nat × Nat} (adjacent : crossed.Adjacent arc.1 arc.2) : ∃ edge ∈ crossedArcs, edge.2 = arc := by
  obtain ⟨e, stored⟩ := adjacent
  rw [crossed_lists.ends, Option.map_eq_some_iff] at stored
  obtain ⟨edge, found, same⟩ := stored
  exact ⟨edge, List.mem_of_getElem? found, same⟩

theorem crossed_inner {arc : Nat × Nat} (adjacent : crossed.Adjacent arc.1 arc.2) (inner : Inner 10 crossed arc) :
    arc = (1, 4) := by
  obtain ⟨edge, member, rfl⟩ := crossed_arc adjacent
  have all : ∀ edge ∈ crossedArcs, isVirtual 10 crossed edge.2.1 = true ∧ isVirtual 10 crossed edge.2.2 = true →
      edge.2 = (1, 4) := by decide
  exact all edge member inner

theorem crossed_planar (order : List (List Nat)) : Planar 10 crossed order := by
  intro i _ arc arc' inner inner' crosses
  obtain ⟨u, v, u', v', spans, spans', -⟩ := id crosses
  rw [crossed_inner spans.edge inner, crossed_inner spans'.edge inner'] at crosses
  exact not_crosses_self _ crosses

/-- The same graph with two vertices in the other order, in which no edges cross. -/
def straightOrder : List (List Nat) := [[0], [2, 1], [3, 4], [5]]

private theorem straight_layered : Layered crossed straightOrder := .ofLists (by decide) (by decide)

private theorem straight_ranked : Ranked crossed straightOrder crossedRank := by
  intro v labelled
  have all : ∀ v < 6, crossedRank[v]? = some (rankOf straightOrder v : Int) := by decide
  exact all v (crossed_labelled labelled)

private theorem straight_clear (arc : Nat × Nat) : ¬Conflict 10 crossed straightOrder 1 arc := by
  intro conflict
  obtain ⟨-, inner, virtual, u, v, u', v', spans, spans', crosses⟩ := conflict
  obtain ⟨edge, member, same⟩ := crossed_arc spans.edge
  have place : u' = 1 ∧ v' = 4 := by
    have ends := spans'.ends
    rw [crossed_inner spans'.edge virtual] at ends
    rcases ends with ends | ends
    · simpa [eq_comm] using ends
    · have upper := spans'.upper
      obtain ⟨-, rfl⟩ := Prod.mk.inj ends
      exact absurd upper (by decide)
  have all : ∀ edge ∈ crossedArcs, ∀ ends ∈ [edge.2, edge.2.swap],
      rankOf straightOrder ends.1 = 1 → rankOf straightOrder ends.2 = 2 →
      ¬(placeOf straightOrder ends.1 < placeOf straightOrder 1 ∧ placeOf straightOrder 4 < placeOf straightOrder ends.2 ∨
        placeOf straightOrder 1 < placeOf straightOrder ends.1 ∧ placeOf straightOrder ends.2 < placeOf straightOrder 4) := by
    decide
  have listed : (u, v) ∈ [edge.2, edge.2.swap] := by
    rcases spans.ends with ends | ends <;> simp [same, ends]
  obtain ⟨rfl, rfl⟩ := place
  exact all edge member _ listed spans.upper spans.lower crosses

private theorem straight_rightmost : RightmostFirst 10 crossed straightOrder 1 := by
  intro v virtual lower u top w source
  have all : ∀ v < 6, ∀ u ∈ (innerSources 10 crossed straightOrder 1 v).head?, ∀ w ∈ innerSources 10 crossed straightOrder 1 v,
      placeOf straightOrder w ≤ placeOf straightOrder u := by decide
  exact all v (crossed_labelled (labelled_of_isVirtual virtual)) u top w source

/-- In the one order something is missed, in the other one there is nothing to find. -/
theorem conflicts_exact_iff_crossed :
    (∃ ret, (markType1Conflicts 10 crossedOrder crossedRank crossed : Outcome Empty (List (Nat × Nat))) = .returns ret ∧
      (((∀ arc, arc ∈ ret ↔ ∃ i, Processed crossedOrder i ∧ Conflict 10 crossed crossedOrder i arc) ∧
          ∀ arc ∈ ret, ¬Inner 10 crossed arc) ↔
        ∀ i, Processed crossedOrder i →
          (∀ arc, ¬Conflict 10 crossed crossedOrder i arc) ∧ RightmostFirst 10 crossed crossedOrder i)) ∧
    ∃ ret, (markType1Conflicts 10 straightOrder crossedRank crossed : Outcome Empty (List (Nat × Nat))) = .returns ret ∧
      (∀ arc, arc ∈ ret ↔ ∃ i, Processed straightOrder i ∧ Conflict 10 crossed straightOrder i arc) ∧
      ∀ arc ∈ ret, ¬Inner 10 crossed arc := by
  refine ⟨conflicts_exact_iff crossed_layered crossed_ranked (crossed_planar _), ?_⟩
  obtain ⟨ret, returned, right⟩ := conflicts_exact_iff (ε := Empty) straight_layered straight_ranked (crossed_planar _)
  refine ⟨ret, returned, right.mpr fun i processed => ?_⟩
  obtain rfl : i = 1 := by
    have bound := processed.2
    have positive := processed.1
    simp only [straightOrder, List.length_cons, List.length_nil] at bound
    omega
  exact ⟨straight_clear, straight_rightmost⟩

/-- The conflict is not found. -/
theorem not_conflicts_exact :
    Layered crossed crossedOrder ∧ Ranked crossed crossedOrder crossedRank ∧ Planar 10 crossed crossedOrder ∧
      (markType1Conflicts 10 crossedOrder crossedRank crossed : Outcome Empty (List (Nat × Nat))) = .returns [] ∧
      ∃ i, Processed crossedOrder i ∧ Conflict 10 crossed crossedOrder i (2, 3) := by
  refine ⟨crossed_layered, crossed_ranked, crossed_planar _, by decide, 1, ⟨by decide, by decide⟩, ?_, (1, 4), ?_,
    2, 3, 1, 4, ?_, ?_, by decide⟩
  · intro inner
    exact absurd inner.1 (by decide)
  · exact ⟨by decide, by decide⟩
  · exact ⟨⟨3, by decide⟩, .inl rfl, by decide, by decide⟩
  · exact ⟨⟨2, by decide⟩, .inl rfl, by decide, by decide⟩

end Panopticon.Proofs.Conflicts
