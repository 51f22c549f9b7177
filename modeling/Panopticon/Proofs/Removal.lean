import Panopticon.Proofs.Store
import Panopticon.Removal

/-! Removals keep the store consistent unless a vertex with an edge to itself goes. -/

namespace Panopticon.Proofs.Removal
open Library AdjacencyList

variable {N E ε : Type} {g g' g'' : AdjacencyList N E}

private theorem swapRemove_perm {entries : List Nat} {e o : Nat} (found : entries.findIdx? (· == e) = some o) :
    (swapRemove entries o).Perm (entries.erase e) := by
  obtain ⟨inside, here, -⟩ := List.findIdx?_eq_some_iff_getElem.mp found
  simp only [beq_iff_eq] at here
  suffices whole : (e :: swapRemove entries o).Perm entries by
    have member : e ∈ entries := here ▸ List.getElem_mem inside
    exact (whole.trans (List.perm_cons_erase member)).cons_inv
  rcases List.eq_nil_or_concat entries with rfl | ⟨front, last, rfl⟩
  · simp at inside
  · simp only [List.concat_eq_append] at here inside ⊢
    simp only [swapRemove, List.getLast?_append, List.getLast?_singleton, Option.some_or]
    by_cases early : o < front.length
    · rw [List.getElem_append_left early] at here
      rw [List.set_append_left _ _ early, List.dropLast_concat]
      calc e :: front.set o last
        _ |>.Perm (e :: last :: front.eraseIdx o) := (List.set_perm_cons_eraseIdx early last).cons e
        _ |>.Perm (last :: e :: front.eraseIdx o) := .swap _ _ _
        _ |>.Perm (last :: front) := (here ▸ List.getElem_cons_eraseIdx_perm early).cons last
        _ |>.Perm (front ++ [last]) := (List.perm_append_singleton last front).symm
    · have final : o = front.length := by
        simp only [List.length_append, List.length_singleton] at inside
        omega
      subst o
      simp only [List.getElem_concat_length] at here
      subst last
      simpa using (List.perm_append_singleton e front).symm

/-- Keys and entries of an incidence table after taking some edges out. -/
def Thinned (dead : List Nat) (table table' : Std.ExtTreeMap Nat (List Nat)) : Prop :=
  ∀ v : Nat, Option.Rel (fun (new old : List Nat) => new.Perm (old.filter (· ∉ dead))) table'[v]? table[v]?

theorem Thinned.nil (table : Std.ExtTreeMap Nat (List Nat)) : Thinned [] table table := by
  intro v
  cases table[v]? with
  | none => exact .none
  | some list => exact .some (by simp)

theorem Thinned.append {dead dead' : List Nat} {table table' table'' : Std.ExtTreeMap Nat (List Nat)}
    (first : Thinned dead table table') (second : Thinned dead' table' table'') : Thinned (dead ++ dead') table table'' := by
  intro v
  have left := first v
  have right := second v
  generalize table[v]? = old at left ⊢
  generalize table'[v]? = middle at left right
  generalize table''[v]? = new at right ⊢
  cases left with
  | none =>
    cases right
    exact .none
  | some perm =>
    cases right with
    | some perm' =>
      refine .some (perm'.trans ((perm.filter _).trans ?_))
      rw [List.filter_filter]
      refine .of_eq (List.filter_congr fun e _ => ?_)
      simp [Bool.and_comm]

theorem Thinned.isSome {dead : List Nat} {table table' : Std.ExtTreeMap Nat (List Nat)} (thinned : Thinned dead table table')
    (v : Nat) : (table'[v]?).isSome ↔ (table[v]?).isSome := by
  have related := thinned v
  generalize table[v]? = old at related ⊢
  generalize table'[v]? = new at related ⊢
  cases related <;> simp

theorem Thinned.get {dead list : List Nat} {table table' : Std.ExtTreeMap Nat (List Nat)} {v : Nat}
    (thinned : Thinned dead table table') (found : table'[v]? = some list) :
    ∃ old : List Nat, table[v]? = some old ∧ list.Perm (old.filter (· ∉ dead)) := by
  have related := thinned v
  rw [found] at related
  generalize table[v]? = before at related ⊢
  cases related with
  | some perm => exact ⟨_, rfl, perm⟩

theorem rmAdj_thinned {table : Std.ExtTreeMap Nat (List Nat)} {v e : Nat} {cont : List Nat}
    (distinct : ∀ (w : Nat) (list : List Nat), table[w]? = some list → list.Nodup ∧ (e ∈ list ↔ w = v))
    (found : table[v]? = some cont) : ∃ table', rmAdj table v e = (table', true) ∧ Thinned [e] table table' := by
  obtain ⟨nodup, member⟩ := distinct v cont found
  obtain ⟨o, position⟩ : ∃ o, cont.findIdx? (· == e) = some o := by
    rw [← Option.isSome_iff_exists, List.findIdx?_isSome, List.any_eq_true]
    exact ⟨e, member.mpr rfl, by simp⟩
  refine ⟨table.insert v (swapRemove cont o), by simp [rmAdj, found, position], ?_⟩
  intro w
  simp only [Std.ExtTreeMap.getElem?_insert, Nat.compare_eq_eq]
  split
  · next same =>
    subst w
    rw [found]
    refine .some ((swapRemove_perm position).trans ?_)
    rw [nodup.erase_eq_filter]
    refine .of_eq (List.filter_congr fun other _ => ?_)
    by_cases same : other = e <;> simp [same]
  · next other =>
    cases list : table[w]? with
    | none => exact .none
    | some entries =>
      refine .some (.of_eq (Eq.symm (List.filter_eq_self.mpr fun d inside => ?_)))
      have apart : d ≠ e := fun same => other ((distinct w entries list).2.mp (same ▸ inside)).symm
      simpa using apart

/-- The part of consistency that does not speak about the labels of vertices. -/
structure Linked (g : AdjacencyList N E) : Prop where
  guarded : ∀ e : Nat, (g.edgeLabel e).isSome ↔ (g.edges[e]?).isSome
  ends : ∀ e u v : Nat, g.edges[e]? = some (u, v) → (g.outEdges[u]?).isSome ∧ (g.inEdges[v]?).isSome
  outList : ∀ (u : Nat) out, g.outEdges[u]? = some out → out.Nodup ∧ ∀ e : Nat, e ∈ out ↔ ∃ v, g.edges[e]? = some (u, v)
  inList : ∀ (v : Nat) into, g.inEdges[v]? = some into → into.Nodup ∧ ∀ e : Nat, e ∈ into ↔ ∃ u, g.edges[e]? = some (u, v)

theorem linked_of_consistent (valid : g.Consistent) : Linked g where
  guarded := valid.guarded
  ends e u v stored := by
    obtain ⟨left, right⟩ := valid.ends e u v stored
    exact ⟨(valid.outKeys u).mpr left, (valid.inKeys v).mpr right⟩
  outList := valid.outList
  inList := valid.inList

/-- `g'` is `g` without the edges `dead`. -/
structure Without (dead : List Nat) (g g' : AdjacencyList N E) : Prop where
  vertexLabels : g'.vertexLabels = g.vertexLabels
  edgeLabel : ∀ e : Nat, g'.edgeLabel e = if e ∈ dead then none else g.edgeLabel e
  edges : ∀ e : Nat, g'.edges[e]? = if e ∈ dead then none else g.edges[e]?
  outEdges : Thinned dead g.outEdges g'.outEdges
  inEdges : Thinned dead g.inEdges g'.inEdges
  nextEdge : g'.nextEdge = g.nextEdge
  nextVertex : g'.nextVertex = g.nextVertex

theorem Without.nil (g : AdjacencyList N E) : Without [] g g := by
  refine ⟨rfl, by simp, by simp, .nil _, .nil _, rfl, rfl⟩

theorem Without.append {dead dead' : List Nat} (first : Without dead g g') (second : Without dead' g' g'') :
    Without (dead ++ dead') g g'' where
  vertexLabels := second.vertexLabels.trans first.vertexLabels
  edgeLabel e := by
    rw [second.edgeLabel, first.edgeLabel]
    by_cases early : e ∈ dead <;> simp [early]
  edges e := by
    rw [second.edges, first.edges]
    by_cases early : e ∈ dead <;> simp [early]
  outEdges := first.outEdges.append second.outEdges
  inEdges := first.inEdges.append second.inEdges
  nextEdge := second.nextEdge.trans first.nextEdge
  nextVertex := second.nextVertex.trans first.nextVertex

theorem Without.stored {dead : List Nat} (without : Without dead g g') {e : Nat} {ends : Nat × Nat} :
    g'.edges[e]? = some ends ↔ g.edges[e]? = some ends ∧ e ∉ dead := by
  rw [without.edges]
  by_cases gone : e ∈ dead <;> simp [gone]

theorem Without.linked {dead : List Nat} (without : Without dead g g') (linked : Linked g) : Linked g' where
  guarded e := by
    rw [without.edgeLabel, without.edges]
    by_cases gone : e ∈ dead
    · simp [gone]
    · simpa [gone] using linked.guarded e
  ends e u v stored := by
    obtain ⟨left, right⟩ := linked.ends e u v (without.stored.mp stored).1
    exact ⟨(without.outEdges.isSome u).mpr left, (without.inEdges.isSome v).mpr right⟩
  outList u out found := by
    obtain ⟨old, before, perm⟩ := without.outEdges.get found
    obtain ⟨nodup, members⟩ := linked.outList u old before
    refine ⟨perm.nodup_iff.mpr (nodup.filter _), fun e => ?_⟩
    simp [perm.mem_iff, members, without.stored]
  inList v into found := by
    obtain ⟨old, before, perm⟩ := without.inEdges.get found
    obtain ⟨nodup, members⟩ := linked.inList v old before
    refine ⟨perm.nodup_iff.mpr (nodup.filter _), fun e => ?_⟩
    simp [perm.mem_iff, members, without.stored]

theorem removeEdge_spec (linked : Linked g) {e : Nat} (present : (g.edges[e]?).isSome) :
    ∃ lb g', g.edgeLabel e = some lb ∧ (g.removeEdge e : Outcome ε _) = .returns (g', some lb) ∧ Without [e] g g' := by
  obtain ⟨lb, label⟩ := Option.isSome_iff_exists.mp ((linked.guarded e).mpr present)
  obtain ⟨⟨u, v⟩, stored⟩ := Option.isSome_iff_exists.mp present
  obtain ⟨left, right⟩ := linked.ends e u v stored
  obtain ⟨out, outgoing⟩ := Option.isSome_iff_exists.mp left
  obtain ⟨into, incoming⟩ := Option.isSome_iff_exists.mp right
  obtain ⟨outEdges, first, thinned⟩ := rmAdj_thinned (e := e) (fun w list found => by
    obtain ⟨nodup, members⟩ := linked.outList w list found
    refine ⟨nodup, (members e).trans ?_⟩
    simp [stored, eq_comm]) outgoing
  obtain ⟨inEdges, second, thinned'⟩ := rmAdj_thinned (e := e) (fun w list found => by
    obtain ⟨nodup, members⟩ := linked.inList w list found
    refine ⟨nodup, (members e).trans ?_⟩
    simp [stored, eq_comm]) incoming
  refine ⟨lb, { g with edgeLabels := g.edgeLabels.erase e, edges := g.edges.erase e, outEdges, inEdges }, label, ?_,
    rfl, ?_, ?_, thinned, thinned', rfl, rfl⟩
  · have found : g.edgeLabels[e]? = some lb := label
    simp [removeEdge, found, source, target, stored, first, second, Outcome.unwrap]
  · intro d
    simp only [edgeLabel, Std.ExtTreeMap.getElem?_erase, Nat.compare_eq_eq, List.mem_singleton, @eq_comm _ d e]
  · intro d
    simp only [Std.ExtTreeMap.getElem?_erase, Nat.compare_eq_eq, List.mem_singleton, @eq_comm _ d e]

theorem removeEdge_missing {e : Nat} (missing : g.edgeLabel e = none) :
    (g.removeEdge e : Outcome ε _) = .returns (g, none) := by
  have found : g.edgeLabels[e]? = none := missing
  simp [removeEdge, found]

theorem removeEdges_spec (linked : Linked g) {items : List Nat} (distinct : items.Nodup)
    (present : ∀ e ∈ items, (g.edges[e]?).isSome) :
    ∃ g', (g.removeEdges items : Outcome ε _) = .returns (g', true) ∧ Without items g g' := by
  induction items generalizing g with
  | nil => exact ⟨g, rfl, .nil g⟩
  | cons e items ih =>
    obtain ⟨lb, middle, -, removed, without⟩ := removeEdge_spec (ε := ε) linked (present e List.mem_cons_self)
    obtain ⟨fresh, rest⟩ := List.nodup_cons.mp distinct
    obtain ⟨last, finished, without'⟩ := ih (without.linked linked) rest (fun d member => by
      have other : d ≠ e := fun same => fresh (same ▸ member)
      rw [without.edges, if_neg (by simpa using other)]
      exact present d (List.mem_cons_of_mem _ member))
    exact ⟨last, by simp [removeEdges, removed, finished], without.append without'⟩

private theorem removeEdges_missing (linked : Linked g) {items : List Nat} {e : Nat} (member : e ∈ items)
    (missing : g.edgeLabel e = none) : ∃ g', (g.removeEdges items : Outcome ε _) = .returns (g', false) := by
  induction items generalizing g with
  | nil => cases member
  | cons d items ih =>
    cases label : g.edgeLabel d with
    | none => exact ⟨g, by simp [removeEdges, removeEdge_missing label]⟩
    | some lb =>
      obtain ⟨lb', middle, -, removed, without⟩ :=
        removeEdge_spec (ε := ε) linked ((linked.guarded d).mp (by simp [label]))
      have later : e ∈ items := by
        refine (List.mem_cons.mp member).resolve_left fun same => ?_
        rw [same, label] at missing
        cases missing
      obtain ⟨last, finished⟩ := ih (without.linked linked) later (by rw [without.edgeLabel, missing, ite_self])
      exact ⟨last, by simp [removeEdges, removed, finished]⟩

/-- `g'` is `g` without `v` and the edges that touch it. -/
structure WithoutVertex (v : Nat) (g g' : AdjacencyList N E) : Prop where
  vertexLabels : g'.vertexLabels = g.vertexLabels.erase v
  removed : ∀ e u w : Nat, g.edges[e]? = some (u, w) → u = v ∨ w = v → g'.edges[e]? = none ∧ g'.edgeLabel e = none
  kept : ∀ e : Nat, (∀ u w : Nat, g.edges[e]? = some (u, w) → u ≠ v ∧ w ≠ v) →
    g'.edges[e]? = g.edges[e]? ∧ g'.edgeLabel e = g.edgeLabel e

/-- The store once its label table has lost `v`. -/
def unlabel (g : AdjacencyList N E) (v : Nat) : AdjacencyList N E := { g with vertexLabels := g.vertexLabels.erase v }

/-- The store once both incidence tables have lost `v`. -/
def unlist (g : AdjacencyList N E) (v : Nat) : AdjacencyList N E :=
  { g with outEdges := g.outEdges.erase v, inEdges := g.inEdges.erase v }

theorem getElem?_of_erase {α : Type} {table : Std.ExtTreeMap Nat α} {v w : Nat} {entry : α}
    (found : (table.erase v)[w]? = some entry) : table[w]? = some entry := by
  simp only [Std.ExtTreeMap.getElem?_erase, Nat.compare_eq_eq] at found
  split at found
  · cases found
  · exact found

theorem isSome_erase {α : Type} (table : Std.ExtTreeMap Nat α) (v w : Nat) :
    ((table.erase v)[w]?).isSome ↔ w ≠ v ∧ (table[w]?).isSome := by
  simp only [Std.ExtTreeMap.getElem?_erase, Nat.compare_eq_eq]
  by_cases here : v = w
  · simp [here]
  · simp [here, Ne.symm here]

section Vertex
variable {v : Nat} {lb : N} (valid : g.Consistent) (label : g.vertexLabel v = some lb)
include valid

theorem unlabel_linked (v : Nat) : Linked (unlabel g v) := by
  have whole := linked_of_consistent valid
  exact ⟨whole.guarded, whole.ends, whole.outList, whole.inList⟩

/-- Once the edges of `v` are gone, forgetting its lists leaves a consistent store. -/
theorem unlist_consistent {dead : List Nat} (dead_iff : ∀ e : Nat, e ∈ dead ↔ ∃ u w : Nat, g.edges[e]? = some (u, w) ∧ (u = v ∨ w = v))
    (without : Without dead (unlabel g v) g') : (unlist g' v).Consistent := by
  have linked := without.linked (unlabel_linked valid v)
  have labels : ∀ w, ((unlist g' v).vertexLabel w).isSome ↔ w ≠ v ∧ (g.vertexLabel w).isSome := by
    intro w
    have same : (unlist g' v).vertexLabels = g.vertexLabels.erase v := without.vertexLabels
    rw [vertexLabel, same]
    exact isSome_erase _ v w
  have stored : ∀ {e : Nat} {ends : Nat × Nat}, g'.edges[e]? = some ends → g.edges[e]? = some ends ∧ e ∉ dead :=
    fun entry => without.stored.mp entry
  constructor
  · exact linked.guarded
  · intro w
    rw [labels, unlist, isSome_erase, without.outEdges.isSome]
    exact and_congr_right fun _ => valid.outKeys w
  · intro w
    rw [labels, unlist, isSome_erase, without.inEdges.isSome]
    exact and_congr_right fun _ => valid.inKeys w
  · intro e u w entry
    obtain ⟨before, stays⟩ := stored entry
    obtain ⟨left, right⟩ := valid.ends e u w before
    have apart : ¬ (u = v ∨ w = v) := fun touches => stays ((dead_iff e).mpr ⟨u, w, before, touches⟩)
    exact ⟨(labels u).mpr ⟨fun same => apart (.inl same), left⟩, (labels w).mpr ⟨fun same => apart (.inr same), right⟩⟩
  · exact fun u list found => linked.outList u list (getElem?_of_erase found)
  · exact fun u list found => linked.inList u list (getElem?_of_erase found)
  · intro e present
    obtain ⟨ends, entry⟩ := Option.isSome_iff_exists.mp present
    have before := valid.fresh e (Option.isSome_iff_exists.mpr ⟨ends, (stored entry).1⟩)
    exact before.trans_eq without.nextEdge.symm
  · intro w present
    exact (valid.freshVertex w ((labels w).mp present).2).trans_eq without.nextVertex.symm

omit valid in
private theorem unlist_withoutVertex {dead : List Nat}
    (dead_iff : ∀ e : Nat, e ∈ dead ↔ ∃ u w : Nat, g.edges[e]? = some (u, w) ∧ (u = v ∨ w = v))
    (without : Without dead (unlabel g v) g') : WithoutVertex v g (unlist g' v) := by
  have edges : ∀ e : Nat, (unlist g' v).edges[e]? = if e ∈ dead then none else g.edges[e]? := without.edges
  have edgeLabel : ∀ e : Nat, (unlist g' v).edgeLabel e = if e ∈ dead then none else g.edgeLabel e := without.edgeLabel
  refine ⟨without.vertexLabels, ?_, ?_⟩
  · intro e u w entry touches
    have gone := (dead_iff e).mpr ⟨u, w, entry, touches⟩
    rw [edges, edgeLabel, if_pos gone, if_pos gone]
    exact ⟨rfl, rfl⟩
  · intro e apart
    have stays : e ∉ dead := by
      intro gone
      obtain ⟨u, w, entry, touches⟩ := (dead_iff e).mp gone
      obtain ⟨left, right⟩ := apart u w entry
      exact touches.elim left right
    rw [edges, edgeLabel, if_neg stays, if_neg stays]
    exact ⟨rfl, rfl⟩

include label

/-- The lists of a vertex, and the store once the first of them has been worked off. -/
theorem removeEdges_into : ∃ into out middle, g.inEdges[v]? = some into ∧ g.outEdges[v]? = some out ∧
    ((unlabel g v).removeEdges into : Outcome ε _) = .returns (middle, true) ∧ Without into (unlabel g v) middle := by
  obtain ⟨into, incoming⟩ := Option.isSome_iff_exists.mp ((valid.inKeys v).mpr (by simp [label]))
  obtain ⟨out, outgoing⟩ := Option.isSome_iff_exists.mp ((valid.outKeys v).mpr (by simp [label]))
  obtain ⟨nodup, members⟩ := valid.inList v into incoming
  obtain ⟨middle, removed, without⟩ := removeEdges_spec (ε := ε) (unlabel_linked valid v) nodup (fun e member => by
    obtain ⟨u, stored⟩ := (members e).mp member
    exact Option.isSome_iff_exists.mpr ⟨_, stored⟩)
  exact ⟨into, out, middle, incoming, outgoing, removed, without⟩

theorem removeVertex_spec (loopless : ∀ e : Nat, g.edges[e]? ≠ some (v, v)) :
    ∃ g', (g.removeVertex v : Outcome ε _) = .returns (g', some lb) ∧ WithoutVertex v g g' ∧ g'.Consistent := by
  obtain ⟨into, out, middle, incoming, outgoing, first, without⟩ := removeEdges_into (ε := ε) valid label
  obtain ⟨-, membersIn⟩ := valid.inList v into incoming
  obtain ⟨nodup, membersOut⟩ := valid.outList v out outgoing
  obtain ⟨last, second, without'⟩ := removeEdges_spec (ε := ε) (without.linked (unlabel_linked valid v)) nodup
    (fun e member => by
      obtain ⟨w, stored⟩ := (membersOut e).mp member
      refine Option.isSome_iff_exists.mpr ⟨_, without.stored.mpr ⟨stored, fun inside => ?_⟩⟩
      obtain ⟨u, stored'⟩ := (membersIn e).mp inside
      rw [stored] at stored'
      cases stored'
      exact loopless e stored)
  have whole := without.append without'
  have dead : ∀ e : Nat, e ∈ into ++ out ↔ ∃ u w : Nat, g.edges[e]? = some (u, w) ∧ (u = v ∨ w = v) := by
    intro e
    rw [List.mem_append, membersIn, membersOut]
    constructor
    · intro member
      rcases member with ⟨u, stored⟩ | ⟨w, stored⟩
      · exact ⟨u, v, stored, .inr rfl⟩
      · exact ⟨v, w, stored, .inl rfl⟩
    · intro holds
      obtain ⟨u, w, stored, touches⟩ := holds
      rcases touches with rfl | rfl
      · exact .inr ⟨w, stored⟩
      · exact .inl ⟨u, stored⟩
  refine ⟨unlist last v, ?_, unlist_withoutVertex dead whole, unlist_consistent valid dead whole⟩
  have found : g.vertexLabels[v]? = some lb := label
  have outKey : v ∈ last.outEdges := by
    simpa using (whole.outEdges.isSome v).mpr (Option.isSome_iff_exists.mpr ⟨out, outgoing⟩)
  have inKey : v ∈ last.inEdges := by
    simpa using (whole.inEdges.isSome v).mpr (Option.isSome_iff_exists.mpr ⟨into, incoming⟩)
  simp only [unlabel] at first
  simp only [removeVertex, found, incoming, outgoing, Option.getD_some, first, Outcome.returns_bind, ite_true, second]
  simp [outKey, inKey, unlist]

/-- An edge from a vertex to itself stands in both lists, and the second loop does not find it any more. -/
theorem removeVertex_loop {e : Nat} (loop : g.edges[e]? = some (v, v)) :
    ∃ g', (g.removeVertex v : Outcome ε _) = .returns (g', none) := by
  obtain ⟨into, out, middle, incoming, outgoing, first, without⟩ := removeEdges_into (ε := ε) valid label
  have entering := ((valid.inList v into incoming).2 e).mpr ⟨v, loop⟩
  have leaving := ((valid.outList v out outgoing).2 e).mpr ⟨v, loop⟩
  obtain ⟨last, second⟩ := removeEdges_missing (ε := ε) (without.linked (unlabel_linked valid v)) leaving
    (by rw [without.edgeLabel, if_pos entering])
  refine ⟨last, ?_⟩
  have found : g.vertexLabels[v]? = some lb := label
  simp only [unlabel] at first
  simp only [removeVertex, found, incoming, outgoing, Option.getD_some, first, Outcome.returns_bind, ite_true, second]
  simp

end Vertex

/-- All states on the way are consistent, and a vertex that is removed goes with exactly its edges. -/
def Preserved (calls : List (Change N E)) : Prop :=
  ∀ done rest, calls = done ++ rest → ∃ g : AdjacencyList N E, (changes new done : Outcome Empty _) = .returns g ∧
    g.Consistent ∧ ∀ v more lb, rest = .removeVertex v :: more → g.vertexLabel v = some lb →
      ∃ g', (g.removeVertex v : Outcome Empty _) = .returns (g', some lb) ∧ WithoutVertex v g g'

/-- No vertex is removed while it has an edge to itself. -/
def Loopless (calls : List (Change N E)) : Prop :=
  ∀ done v more, calls = done ++ .removeVertex v :: more → ∀ g : AdjacencyList N E,
    (changes new done : Outcome Empty _) = .returns g → (g.vertexLabel v).isSome → ∀ e : Nat, g.edges[e]? ≠ some (v, v)

theorem Without.consistent {dead : List Nat} (without : Without dead g g') (valid : g.Consistent) : g'.Consistent := by
  have linked := without.linked (linked_of_consistent valid)
  have labels : ∀ v, g'.vertexLabel v = g.vertexLabel v := by
    intro v
    rw [vertexLabel, without.vertexLabels]
    rfl
  constructor
  · exact linked.guarded
  · intro v
    rw [labels]
    exact (without.outEdges.isSome v).trans (valid.outKeys v)
  · intro v
    rw [labels]
    exact (without.inEdges.isSome v).trans (valid.inKeys v)
  · intro e u v entry
    rw [labels, labels]
    exact valid.ends e u v (without.stored.mp entry).1
  · exact linked.outList
  · exact linked.inList
  · intro e present
    obtain ⟨ends, entry⟩ := Option.isSome_iff_exists.mp present
    rw [without.nextEdge]
    exact valid.fresh e (Option.isSome_iff_exists.mpr ⟨ends, (without.stored.mp entry).1⟩)
  · intro v present
    rw [without.nextVertex]
    exact valid.freshVertex v (labels v ▸ present)

private theorem change_consistent (valid : g.Consistent) (call : Change N E)
    (loopless : ∀ v, call = .removeVertex v → (g.vertexLabel v).isSome → ∀ e : Nat, g.edges[e]? ≠ some (v, v)) :
    ∃ g', (g.change call : Outcome ε _) = .returns g' ∧ g'.Consistent := by
  cases call with
  | addVertex lb => exact ⟨_, rfl, valid.addVertex lb⟩
  | addEdge lb source target => exact ⟨_, rfl, valid.addEdge lb source target⟩
  | removeVertex v =>
    cases label : g.vertexLabel v with
    | none =>
      have found : g.vertexLabels[v]? = none := label
      exact ⟨g, by simp [change, removeVertex, found], valid⟩
    | some lb =>
      obtain ⟨g', removed, -, valid'⟩ := removeVertex_spec (ε := ε) valid label (loopless v rfl (by simp [label]))
      exact ⟨g', by simp [change, removed], valid'⟩
  | removeEdge e =>
    cases label : g.edgeLabel e with
    | none => exact ⟨g, by simp [change, removeEdge_missing label], valid⟩
    | some lb =>
      obtain ⟨lb', g', -, removed, without⟩ :=
        removeEdge_spec (ε := ε) (linked_of_consistent valid) ((valid.guarded e).mp (by simp [label]))
      exact ⟨g', by simp [change, removed], without.consistent valid⟩

theorem preserved_iff (calls : List (Change N E)) : Preserved calls ↔ Loopless calls := by
  constructor
  · intro preserved done v more split g returned present e loop
    obtain ⟨g', returned', valid, removal⟩ := preserved done _ split
    rw [returned] at returned'
    cases returned'
    obtain ⟨lb, label⟩ := Option.isSome_iff_exists.mp present
    obtain ⟨after, removed, -⟩ := removal v more lb rfl label
    obtain ⟨stuck, failed⟩ := removeVertex_loop (ε := Empty) valid label loop
    rw [removed] at failed
    cases failed
  · intro loopless
    -- the state after each of the calls, by induction on how many have been made
    have states : ∀ done rest, calls = done ++ rest →
        ∃ g : AdjacencyList N E, (changes new done : Outcome Empty _) = .returns g ∧ g.Consistent := by
      intro done
      induction done using List.reverseRecOn with
      | nil => exact fun _ _ => ⟨new, rfl, .new⟩
      | append_singleton done call ih =>
        intro rest split
        rw [List.append_assoc] at split
        obtain ⟨g, returned, valid⟩ := ih _ split
        obtain ⟨g', changed, valid'⟩ := change_consistent (ε := Empty) valid call (fun v same present =>
          loopless done v rest (by rw [split, same]; rfl) g returned present)
        refine ⟨g', ?_, valid'⟩
        rw [changes, Outcome.fold_append returned]
        simp [Outcome.fold, changed]
    intro done rest split
    obtain ⟨g, returned, valid⟩ := states done rest split
    refine ⟨g, returned, valid, ?_⟩
    intro v more lb next label
    obtain ⟨g', removed, without, -⟩ := removeVertex_spec (ε := Empty) valid label
      (loopless done v more (by rw [split, next]) g returned (by simp [label]))
    exact ⟨g', removed, without⟩

/-- A vertex with an edge to itself: nothing is returned, and its lists stay. -/
theorem selfLoop_not_preserved : ¬ Preserved [Change.addVertex (), .addEdge () 0 0, .removeVertex 0] := by
  intro preserved
  obtain ⟨g, returned, -, removal⟩ := preserved [.addVertex (), .addEdge () 0 0] [.removeVertex 0] rfl
  have answer : (changes new [.addVertex (), .addEdge () 0 0] : Outcome Empty (AdjacencyList Unit Unit)).value?.any
      (fun g => g.vertexLabel 0 == some () && (g.removeVertex 0 : Outcome Empty _).value?.any (·.2 == none)) = true := by
    decide
  simp only [returned, Outcome.value?, Option.any_some, Bool.and_eq_true, beq_iff_eq] at answer
  obtain ⟨g', removed, -⟩ := removal 0 [] () rfl answer.1
  rw [removed] at answer
  cases answer.2

end Panopticon.Proofs.Removal
