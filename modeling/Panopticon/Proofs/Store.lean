import Panopticon.Ssa

/-! Consistency of the five tables of a graph store. -/

namespace Panopticon.AdjacencyList
variable {N E : Type} {g : AdjacencyList N E}

def Adjacent (g : AdjacencyList N E) (u v : Nat) : Prop := ∃ e : Nat, g.edges[e]? = some (u, v)

/-- Edges join labelled vertices and stand once in the lists of both their ends. -/
structure Consistent (g : AdjacencyList N E) : Prop where
  guarded : ∀ e : Nat, (g.edgeLabel e).isSome ↔ (g.edges[e]?).isSome
  outKeys : ∀ v : Nat, (g.outEdges[v]?).isSome ↔ (g.vertexLabel v).isSome
  inKeys : ∀ v : Nat, (g.inEdges[v]?).isSome ↔ (g.vertexLabel v).isSome
  ends : ∀ e u v : Nat, g.edges[e]? = some (u, v) → (g.vertexLabel u).isSome ∧ (g.vertexLabel v).isSome
  outList : ∀ (u : Nat) out, g.outEdges[u]? = some out → out.Nodup ∧ ∀ e : Nat, e ∈ out ↔ ∃ v, g.edges[e]? = some (u, v)
  inList : ∀ (v : Nat) into, g.inEdges[v]? = some into → into.Nodup ∧ ∀ e : Nat, e ∈ into ↔ ∃ u, g.edges[e]? = some (u, v)
  fresh : ∀ e : Nat, (g.edges[e]?).isSome → e < g.nextEdge
  freshVertex : ∀ v : Nat, (g.vertexLabel v).isSome → v < g.nextVertex

theorem length_le_numVertices {list : List Nat} (nodup : list.Nodup) (inside : ∀ v ∈ list, (g.vertexLabel v).isSome) :
    list.length ≤ g.numVertices := by
  have subset : list ⊆ g.vertexLabels.keys := by
    intro v member
    simpa [vertexLabel] using inside v member
  have length := (nodup.subperm subset).length_le
  rwa [Std.ExtTreeMap.length_keys] at length

theorem nodup_toList (seen : Std.ExtTreeSet Nat) : seen.toList.Nodup := by
  have pairs := Std.ExtTreeSet.distinct_toList (t := seen)
  exact pairs.imp fun {a b} other same => other (by simp [same])

theorem size_le_numVertices {seen : Std.ExtTreeSet Nat} (inside : ∀ v ∈ seen, (g.vertexLabel v).isSome) :
    seen.size ≤ g.numVertices := by
  have length := length_le_numVertices (nodup_toList seen) fun v member => inside v (by simpa using member)
  rwa [Std.ExtTreeSet.length_toList] at length

theorem size_eq_numVertices_iff {seen : Std.ExtTreeSet Nat} (inside : ∀ v ∈ seen, (g.vertexLabel v).isSome) :
    seen.size = g.numVertices ↔ ∀ v, (g.vertexLabel v).isSome → v ∈ seen := by
  have subset : seen.toList ⊆ g.vertexLabels.keys := by
    intro v member
    simpa [vertexLabel] using inside v (by simpa using member)
  rw [← Std.ExtTreeSet.length_toList, numVertices, ← Std.ExtTreeMap.length_keys]
  constructor
  · intro same v labelled
    have all := ((nodup_toList seen).subperm subset).perm_of_length_le (Nat.le_of_eq same.symm)
    have key : v ∈ g.vertexLabels.keys := by simpa [vertexLabel] using labelled
    simpa using all.mem_iff.mpr key
  · intro all
    have covered : g.vertexLabels.keys ⊆ seen.toList := by
      intro v key
      simpa using all v (by simpa [vertexLabel] using key)
    apply Nat.le_antisymm
    · exact ((nodup_toList seen).subperm subset).length_le
    · exact (Std.ExtTreeMap.nodup_keys.subperm covered).length_le

namespace Consistent

theorem new : (new : AdjacencyList N E).Consistent := by
  constructor <;> simp [AdjacencyList.new, edgeLabel, vertexLabel]

theorem addVertex (valid : g.Consistent) (lb : N) : (g.addVertex lb).1.Consistent := by
  have unused : ∀ e u v : Nat, g.edges[e]? = some (u, v) → u ≠ g.nextVertex ∧ v ≠ g.nextVertex := by
    intro e u v found
    have labelled := valid.ends e u v found
    exact ⟨Nat.ne_of_lt (valid.freshVertex u labelled.1), Nat.ne_of_lt (valid.freshVertex v labelled.2)⟩
  constructor
  · exact valid.guarded
  · intro v
    simp only [AdjacencyList.addVertex, vertexLabel, Std.ExtTreeMap.getElem?_insert, Nat.compare_eq_eq]
    split
    · simp
    · exact valid.outKeys v
  · intro v
    simp only [AdjacencyList.addVertex, vertexLabel, Std.ExtTreeMap.getElem?_insert, Nat.compare_eq_eq]
    split
    · simp
    · exact valid.inKeys v
  · intro e u v found
    have labelled := valid.ends e u v found
    simp only [AdjacencyList.addVertex, vertexLabel, Std.ExtTreeMap.getElem?_insert, Nat.compare_eq_eq,
      if_neg (unused e u v found).1.symm, if_neg (unused e u v found).2.symm]
    exact labelled
  · intro u out found
    simp only [AdjacencyList.addVertex, Std.ExtTreeMap.getElem?_insert, Nat.compare_eq_eq] at found ⊢
    split at found
    · next same =>
      cases found
      refine ⟨List.nodup_nil, fun e => ⟨fun member => (List.not_mem_nil member).elim, ?_⟩⟩
      intro holds
      obtain ⟨v, edge⟩ := holds
      exact absurd same.symm (unused e u v edge).1
    · exact valid.outList u out found
  · intro v into found
    simp only [AdjacencyList.addVertex, Std.ExtTreeMap.getElem?_insert, Nat.compare_eq_eq] at found ⊢
    split at found
    · next same =>
      cases found
      refine ⟨List.nodup_nil, fun e => ⟨fun member => (List.not_mem_nil member).elim, ?_⟩⟩
      intro holds
      obtain ⟨u, edge⟩ := holds
      exact absurd same.symm (unused e u v edge).2
    · exact valid.inList v into found
  · exact valid.fresh
  · intro v labelled
    simp only [AdjacencyList.addVertex, vertexLabel, Std.ExtTreeMap.getElem?_insert, Nat.compare_eq_eq] at labelled ⊢
    split at labelled
    · omega
    · have := valid.freshVertex v labelled
      omega

/-- The list of a vertex after an edge has been appended to the list of `w`. -/
private theorem appended {lists : Std.ExtTreeMap Nat (List Nat)} {w v e : Nat} {old out : List Nat}
    {inside : Nat → Nat → Prop} (found : (lists.insert w (old ++ [e]))[v]? = some out) (here : lists[w]? = some old)
    (listed : ∀ (v : Nat) (out : List Nat), lists[v]? = some out → out.Nodup ∧ ∀ x, x ∈ out ↔ inside v x) (fresh : ∀ v, ¬ inside v e) :
    out.Nodup ∧ ∀ x, x ∈ out ↔ inside v x ∨ (v = w ∧ x = e) := by
  simp only [Std.ExtTreeMap.getElem?_insert, Nat.compare_eq_eq] at found
  split at found
  · next same =>
    subst v
    cases found
    obtain ⟨nodup, members⟩ := listed w old here
    refine ⟨?_, fun x => by simp [members]⟩
    refine List.nodup_append.mpr ⟨nodup, by simp, ?_⟩
    intro x member y single
    rw [List.mem_singleton.mp single]
    intro same
    exact fresh w (same ▸ (members x).mp member)
  · next other =>
    obtain ⟨nodup, members⟩ := listed v out found
    exact ⟨nodup, fun x => by simp [members, Ne.symm other]⟩

theorem addEdge (valid : g.Consistent) (lb : E) (src dst : Nat) : (g.addEdge lb src dst).1.Consistent := by
  unfold AdjacencyList.addEdge
  split
  · next present =>
    simp only [Bool.and_eq_true, Std.ExtTreeMap.contains_eq_isSome_getElem?] at present
    obtain ⟨into, foundIn⟩ := Option.isSome_iff_exists.mp ((valid.inKeys dst).mpr present.2)
    obtain ⟨out, foundOut⟩ := Option.isSome_iff_exists.mp ((valid.outKeys src).mpr present.1)
    simp only [foundIn, foundOut]
    have unused : g.edges[g.nextEdge]? = none := by
      by_contra taken
      have := valid.fresh _ (Option.isSome_iff_ne_none.mpr taken)
      omega
    have edges : ∀ e u v : Nat, (g.edges.insert g.nextEdge (src, dst))[e]? = some (u, v) ↔
        g.edges[e]? = some (u, v) ∨ (e = g.nextEdge ∧ u = src ∧ v = dst) := by
      intro e u v
      simp only [Std.ExtTreeMap.getElem?_insert, Nat.compare_eq_eq]
      split
      · next same =>
        subst e
        simp [unused, eq_comm]
      · next other => simp [Ne.symm other]
    constructor
    · intro e
      simp only [edgeLabel, Std.ExtTreeMap.getElem?_insert, Nat.compare_eq_eq]
      split
      · simp
      · exact valid.guarded e
    · intro v
      simp only [vertexLabel, Std.ExtTreeMap.getElem?_insert, Nat.compare_eq_eq]
      split
      · next same =>
        subst v
        simpa using present.1
      · exact valid.outKeys v
    · intro v
      simp only [vertexLabel, Std.ExtTreeMap.getElem?_insert, Nat.compare_eq_eq]
      split
      · next same =>
        subst v
        simpa using present.2
      · exact valid.inKeys v
    · intro e u v found
      rcases (edges e u v).mp found with found | ⟨-, rfl, rfl⟩
      · exact valid.ends e u v found
      · exact present
    · intro u list found
      have := appended found foundOut valid.outList (fun v => by simp only [unused]; simp)
      refine ⟨this.1, fun e => (this.2 e).trans ?_⟩
      simp only [edges, exists_or]
      exact or_congr_right (by simp [and_comm])
    · intro v list found
      have := appended found foundIn valid.inList (fun v => by simp only [unused]; simp)
      refine ⟨this.1, fun e => (this.2 e).trans ?_⟩
      simp only [edges, exists_or]
      exact or_congr_right (by simp [and_comm])
    · intro e found
      simp only [Std.ExtTreeMap.getElem?_insert, Nat.compare_eq_eq] at found
      split at found
      · simp_all
      · have := valid.fresh e found
        simp only
        omega
    · exact valid.freshVertex
  · exact valid

end Consistent

def ofLists (labels : List N) (arcs : List (E × Nat × Nat)) : AdjacencyList N E :=
  arcs.foldl (fun g arc => (g.addEdge arc.1 arc.2.1 arc.2.2).1) (labels.foldl (fun g lb => (g.addVertex lb).1) new)

theorem Consistent.ofLists (labels : List N) (arcs : List (E × Nat × Nat)) : (ofLists labels arcs).Consistent := by
  have vertices : ∀ (labels : List N) (g : AdjacencyList N E), g.Consistent →
      (labels.foldl (fun g lb => (g.addVertex lb).1) g).Consistent := by
    intro labels
    induction labels with
    | nil => exact fun _ valid => valid
    | cons lb labels ih => exact fun g valid => ih _ (valid.addVertex lb)
  have edges : ∀ (arcs : List (E × Nat × Nat)) (g : AdjacencyList N E), g.Consistent →
      (arcs.foldl (fun g arc => (g.addEdge arc.1 arc.2.1 arc.2.2).1) g).Consistent := by
    intro arcs
    induction arcs with
    | nil => exact fun _ valid => valid
    | cons arc arcs ih => exact fun g valid => ih _ (valid.addEdge arc.1 arc.2.1 arc.2.2)
  exact edges arcs _ (vertices labels _ .new)

theorem Lists.ofLists {labels : List N} {arcs : List (E × Nat × Nat)}
    (inside : ∀ arc ∈ arcs, arc.2.1 < labels.length ∧ arc.2.2 < labels.length) : (ofLists labels arcs).Lists labels arcs := by
  have vertices : ∀ (labels before : List N) (g : AdjacencyList N E), g.Lists before [] →
      (labels.foldl (fun g lb => (g.addVertex lb).1) g).Lists (before ++ labels) [] := by
    intro labels
    induction labels with
    | nil =>
      intro before g lists
      simpa using lists
    | cons lb labels ih =>
      intro before g lists
      simpa using ih _ _ (lists.addVertex lb)
  have edges : ∀ (arcs before : List (E × Nat × Nat)) (g : AdjacencyList N E),
      (∀ arc ∈ arcs, arc.2.1 < labels.length ∧ arc.2.2 < labels.length) → g.Lists labels before →
      (arcs.foldl (fun g arc => (g.addEdge arc.1 arc.2.1 arc.2.2).1) g).Lists labels (before ++ arcs) := by
    intro arcs
    induction arcs with
    | nil =>
      intro before g _ lists
      simpa using lists
    | cons arc arcs ih =>
      intro before g inside lists
      have here := inside arc List.mem_cons_self
      simpa using ih _ _ (fun arc member => inside arc (List.mem_cons_of_mem _ member)) (lists.addEdge arc.1 here.1 here.2)
  have filled := vertices labels [] _ .new
  exact edges arcs [] _ inside filled

end Panopticon.AdjacencyList
