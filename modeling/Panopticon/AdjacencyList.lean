import Panopticon.Library.Enumeration
import Panopticon.Library.Grouping

/-! The graph store. Vertices and edges are numbered in the order they are added,
and five hash tables keyed by these numbers hold labels, endpoints and incidence
lists. Functions that iterate over a table take the enumeration to follow. -/

namespace Panopticon
open Library

structure AdjacencyList (N E : Type) where
  vertexLabels : Std.ExtTreeMap Nat N
  edgeLabels : Std.ExtTreeMap Nat E
  outEdges : Std.ExtTreeMap Nat (List Nat)
  inEdges : Std.ExtTreeMap Nat (List Nat)
  edges : Std.ExtTreeMap Nat (Nat × Nat)
  nextEdge : Nat
  nextVertex : Nat

namespace AdjacencyList
variable {N E : Type}

def new : AdjacencyList N E := ⟨∅, ∅, ∅, ∅, ∅, 0, 0⟩

def vertexLabel (g : AdjacencyList N E) (v : Nat) : Option N := g.vertexLabels[v]?

def edgeLabel (g : AdjacencyList N E) (e : Nat) : Option E := g.edgeLabels[e]?

def source (g : AdjacencyList N E) (e : Nat) : Option Nat := g.edges[e]?.map Prod.fst

def target (g : AdjacencyList N E) (e : Nat) : Option Nat := g.edges[e]?.map Prod.snd

def vertices (g : AdjacencyList N E) (order : Enumeration Nat) : List Nat := order.list g.vertexLabels.keys

def edgeList (g : AdjacencyList N E) (order : Enumeration Nat) : List Nat := order.list g.edgeLabels.keys

def numVertices (g : AdjacencyList N E) : Nat := g.vertexLabels.size

def addVertex (g : AdjacencyList N E) (lb : N) : AdjacencyList N E × Nat :=
  let n := g.nextVertex
  ({ g with
      nextVertex := n + 1
      vertexLabels := g.vertexLabels.insert n lb
      outEdges := g.outEdges.insert n []
      inEdges := g.inEdges.insert n [] }, n)

def addEdge (g : AdjacencyList N E) (lb : E) (source target : Nat) : AdjacencyList N E × Option Nat :=
  if g.vertexLabels.contains source && g.vertexLabels.contains target then
    let e := g.nextEdge
    let g := { g with
      nextEdge := e + 1
      edgeLabels := g.edgeLabels.insert e lb
      edges := g.edges.insert e (source, target) }
    match g.inEdges[target]?, g.outEdges[source]? with
    | some ie, some oe =>
      ({ g with
          inEdges := g.inEdges.insert target (ie ++ [e])
          outEdges := g.outEdges.insert source (oe ++ [e]) }, some e)
    | _, _ => (g, none)
  else (g, none)

/-- A change made through `vertex_label_mut`. -/
def setVertexLabel (g : AdjacencyList N E) (v : Nat) (lb : N) : AdjacencyList N E :=
  { g with vertexLabels := g.vertexLabels.insert v lb }

/-- A change made through `edge_label_mut`. -/
def setEdgeLabel (g : AdjacencyList N E) (e : Nat) (lb : E) : AdjacencyList N E :=
  { g with edgeLabels := g.edgeLabels.insert e lb }

/-- Label of an edge and labels of its ends, when all of them are present. -/
def edgeEnds (g : AdjacencyList N E) (e : Nat) : Option (E × N × N) :=
  match g.edgeLabel e, (g.source e).bind g.vertexLabel, (g.target e).bind g.vertexLabel with
  | some lb, some src, some tgt => some (lb, src, tgt)
  | _, _, _ => none

/-- First vertex, in the order given, whose label satisfies `p`. -/
def findVertex (g : AdjacencyList N E) (order : Enumeration Nat) (p : N → Bool) : Option Nat :=
  (g.vertices order).find? fun v => match g.vertexLabel v with
    | some lb => p lb
    | none => false

@[simp] theorem mem_vertices (g : AdjacencyList N E) (order : Enumeration Nat) (v : Nat) :
    v ∈ g.vertices order ↔ (g.vertexLabel v).isSome := by
  simp [vertices, vertexLabel]

theorem findVertex_eq_none (g : AdjacencyList N E) (order : Enumeration Nat) (p : N → Bool) :
    g.findVertex order p = none ↔ ∀ v lb, g.vertexLabel v = some lb → p lb = false := by
  simp only [findVertex, List.find?_eq_none, mem_vertices, Option.isSome_iff_exists]
  constructor
  · intro none v lb label
    simpa [label] using none v ⟨lb, label⟩
  · intro none v holds
    obtain ⟨lb, label⟩ := holds
    simp [label, none v lb label]

theorem findVertex_some {g : AdjacencyList N E} {order : Enumeration Nat} {p : N → Bool} {v : Nat}
    (found : g.findVertex order p = some v) : ∃ lb, g.vertexLabel v = some lb ∧ p lb = true := by
  have matching := List.find?_some found
  cases label : g.vertexLabel v with
  | none => simp [label] at matching
  | some lb => exact ⟨lb, rfl, by simpa [label] using matching⟩

/-- The store `g` was filled by adding the vertices `labels` and the edges `arcs`
in this order and removing nothing. -/
structure Lists (g : AdjacencyList N E) (labels : List N) (arcs : List (E × Nat × Nat)) : Prop where
  labelled : ∀ v : Nat, g.vertexLabels[v]? = labels[v]?
  nextVertex : g.nextVertex = labels.length
  guards : ∀ e : Nat, g.edgeLabels[e]? = arcs[e]?.map Prod.fst
  ends : ∀ e : Nat, g.edges[e]? = arcs[e]?.map Prod.snd
  nextEdge : g.nextEdge = arcs.length
  inside : ∀ arc ∈ arcs, arc.2.1 < labels.length ∧ arc.2.2 < labels.length

def view (labels : List N) (arcs : List (E × Nat × Nat)) : List (E × Option N × Option N) :=
  arcs.map fun arc => (arc.1, labels[arc.2.1]?, labels[arc.2.2]?)

namespace Lists
variable {g : AdjacencyList N E} {labels : List N} {arcs : List (E × Nat × Nat)}

theorem new : (new : AdjacencyList N E).Lists [] [] := by
  constructor <;> simp [AdjacencyList.new]

theorem vertexLabel (lists : g.Lists labels arcs) (v : Nat) : g.vertexLabel v = labels[v]? :=
  lists.labelled v

theorem labels_perm (lists : g.Lists labels arcs) (order : Enumeration Nat) :
    ((g.vertices order).filterMap g.vertexLabel).Perm labels := by
  have keys : (g.vertices order).Perm (List.range labels.length) := by
    have nodup : (g.vertices order).Nodup := (order.perm _).nodup_iff.mpr Std.ExtTreeMap.nodup_keys
    rw [List.perm_ext_iff_of_nodup nodup List.nodup_range]
    intro v
    simp [lists.vertexLabel]
  have values : (List.range labels.length).filterMap g.vertexLabel = labels := by
    rw [show g.vertexLabel = fun v => labels[v]? from funext lists.vertexLabel]
    exact filterMap_range labels
  exact (keys.filterMap _).trans (.of_eq values)

theorem addVertex (lists : g.Lists labels arcs) (lb : N) :
    (g.addVertex lb).1.Lists (labels ++ [lb]) arcs := by
  refine ⟨?_, by simp [AdjacencyList.addVertex, lists.nextVertex], lists.guards, lists.ends, lists.nextEdge, ?_⟩
  · intro v
    simp only [AdjacencyList.addVertex, Std.ExtTreeMap.getElem?_insert, Nat.compare_eq_eq, lists.labelled,
      lists.nextVertex, List.getElem?_append]
    grind
  · intro arc member
    have bounds := lists.inside arc member
    simp only [List.length_append, List.length_singleton]
    omega

theorem addVertex_ref (lists : g.Lists labels arcs) (lb : N) : (g.addVertex lb).2 = labels.length :=
  lists.nextVertex

theorem addEdge (lists : g.Lists labels arcs) (lb : E) {source target : Nat}
    (first : source < labels.length) (last : target < labels.length) :
    (g.addEdge lb source target).1.Lists labels (arcs ++ [(lb, source, target)]) := by
  have contains (v : Nat) (inside : v < labels.length) : g.vertexLabels.contains v = true := by
    rw [Std.ExtTreeMap.contains_eq_isSome_getElem?, lists.labelled]
    simp [inside]
  have filled : (arcs ++ [(lb, source, target)]).length = arcs.length + 1 := by simp
  have stored : ∀ g' : AdjacencyList N E, g'.vertexLabels = g.vertexLabels → g'.nextVertex = g.nextVertex →
      g'.edgeLabels = g.edgeLabels.insert g.nextEdge lb → g'.edges = g.edges.insert g.nextEdge (source, target) →
      g'.nextEdge = g.nextEdge + 1 → g'.Lists labels (arcs ++ [(lb, source, target)]) := by
    intro g' vertices next guards ends nextEdge
    refine ⟨fun v => by rw [vertices]; exact lists.labelled v, next.trans lists.nextVertex, ?_, ?_,
      by rw [nextEdge, lists.nextEdge, filled], ?_⟩
    · intro e
      simp only [guards, Std.ExtTreeMap.getElem?_insert, Nat.compare_eq_eq, lists.guards, lists.nextEdge,
        List.getElem?_append]
      grind
    · intro e
      simp only [ends, Std.ExtTreeMap.getElem?_insert, Nat.compare_eq_eq, lists.ends, lists.nextEdge,
        List.getElem?_append]
      grind
    · intro arc member
      rcases List.mem_append.mp member with member | member
      · exact lists.inside arc member
      · cases List.mem_singleton.mp member
        exact ⟨first, last⟩
  simp only [AdjacencyList.addEdge, contains source first, contains target last, Bool.and_self, ite_true]
  split
  all_goals exact stored _ rfl rfl rfl rfl rfl

theorem edges_perm (lists : g.Lists labels arcs) (order : Enumeration Nat) :
    (((g.edgeList order).filterMap g.edgeEnds).map fun edge => (edge.1, some edge.2.1, some edge.2.2)).Perm
      (view labels arcs) := by
  have keys : (g.edgeList order).Perm (List.range arcs.length) := by
    have nodup : (g.edgeList order).Nodup := (order.perm _).nodup_iff.mpr Std.ExtTreeMap.nodup_keys
    rw [List.perm_ext_iff_of_nodup nodup List.nodup_range]
    intro e
    simp [edgeList, ← Std.ExtTreeMap.isSome_getElem?_iff_mem, lists.guards]
  have values : ((List.range arcs.length).filterMap g.edgeEnds).map
      (fun edge => (edge.1, some edge.2.1, some edge.2.2)) = view labels arcs := by
    rw [← filterMap_range (view labels arcs), List.map_filterMap, view, List.length_map]
    apply List.filterMap_congr
    intro e member
    have inside : e < arcs.length := List.mem_range.mp member
    have arc : arcs[e]? = some arcs[e] := List.getElem?_eq_getElem inside
    have bounds := lists.inside _ (List.mem_of_getElem? arc)
    have first := List.getElem?_eq_getElem bounds.1
    have last := List.getElem?_eq_getElem bounds.2
    rw [List.getElem?_map, arc]
    simp only [edgeEnds, edgeLabel, source, target, lists.guards, lists.ends, arc, Option.map_some, Option.bind_some,
      lists.vertexLabel, first, last]
  exact ((keys.filterMap _).map _).trans (.of_eq values)

theorem arc_of_edge (lists : g.Lists labels arcs) {e src dst : Nat} (first : g.source e = some src)
    (last : g.target e = some dst) :
    ∃ lb from_ into, (lb, src, dst) ∈ arcs ∧ labels[src]? = some from_ ∧ labels[dst]? = some into := by
  simp only [source, target, lists.ends, Option.map_map, Option.map_eq_some_iff] at first last
  obtain ⟨⟨lb, i, j⟩, found, rfl⟩ := first
  obtain ⟨arc', found', rfl⟩ := last
  rw [found] at found'
  cases found'
  have bounds := lists.inside _ (List.mem_of_getElem? found)
  exact ⟨lb, _, _, List.mem_of_getElem? found, List.getElem?_eq_getElem bounds.1, List.getElem?_eq_getElem bounds.2⟩

theorem edge_of_arc (lists : g.Lists labels arcs) {lb : E} {src dst : Nat} (member : (lb, src, dst) ∈ arcs) :
    ∃ e, g.edgeLabel e = some lb ∧ g.source e = some src ∧ g.target e = some dst := by
  obtain ⟨e, found⟩ := List.mem_iff_getElem?.mp member
  exact ⟨e, by simp [edgeLabel, lists.guards, found], by simp [source, lists.ends, found],
    by simp [target, lists.ends, found]⟩

end Lists

/-- The same graph up to a renumbering of vertices and edges. -/
def Isomorphic (g h : AdjacencyList N E) : Prop :=
  ∃ vertexMap edgeMap : Nat ≃ Nat, (∀ v, h.vertexLabel (vertexMap v) = g.vertexLabel v) ∧
    ∀ e, h.edgeLabel (edgeMap e) = g.edgeLabel e ∧ h.source (edgeMap e) = (g.source e).map vertexMap ∧
      h.target (edgeMap e) = (g.target e).map vertexMap

/-- Graphs with the same labels, none of them used twice, and the same arcs between them are isomorphic. -/
theorem Lists.isomorphic {g h : AdjacencyList N E} {labels labels' : List N} {arcs arcs' : List (E × Nat × Nat)}
    (lists : g.Lists labels arcs) (lists' : h.Lists labels' arcs') (same : labels.Perm labels') (nodup : labels'.Nodup)
    (edges : (view labels arcs).Perm (view labels' arcs')) : g.Isomorphic h := by
  obtain ⟨vertexMap, vertices⟩ := exists_renumbering same
  obtain ⟨edgeMap, ends⟩ := exists_renumbering edges
  refine ⟨vertexMap, edgeMap, fun v => by rw [lists.vertexLabel, lists'.vertexLabel, vertices], fun e => ?_⟩
  have here := ends e
  simp only [view, List.getElem?_map] at here
  simp only [edgeLabel, source, target, lists.guards, lists'.guards, lists.ends, lists'.ends]
  cases arc : arcs[e]? with
  | none =>
    rw [arc, Option.map_none, Option.map_eq_none_iff] at here
    simp [here]
  | some old =>
    rw [arc, Option.map_some, Option.map_eq_some_iff] at here
    obtain ⟨new, found, equal⟩ := here
    simp only [Prod.mk.injEq] at equal
    have bounds := lists'.inside new (List.mem_of_getElem? found)
    have unique (v w : Nat) (inside : w < labels'.length) (label : labels'[w]? = labels[v]?) : w = vertexMap v := by
      rw [← vertices v] at label
      exact (List.getElem?_inj inside nodup).mp label
    simp [found, equal.1, unique _ _ bounds.1 equal.2.1, unique _ _ bounds.2 equal.2.2]

end AdjacencyList
end Panopticon
