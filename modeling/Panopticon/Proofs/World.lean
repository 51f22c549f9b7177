import Panopticon.Library.Gaps
import Panopticon.Proofs.Traversal
import Panopticon.World

/-! The projection of a world: every region reachable from the root is expanded once, and
what is listed of it are the gaps a sweep over the bounds of its edges finds. -/

namespace Panopticon.Proofs.World
open Library Relation AdjacencyList Proofs.Dominator

variable {ε : Type}

def ends (area : Area) : Nat × Nat := (area.start, area.stop)

def listed (p : Projection) (v : Nat) : List (Nat × Nat) := (p.ret.filter (·.2 = v)).map fun entry => ends entry.1

/-- The bounds of the edges leaving `v`, in the order of their starts and then of the edges. -/
def bounds (g : RegionGraph) (v : Nat) : List (Nat × Nat) :=
  (((g.outEdges[v]?.getD []).filterMap g.edgeLabel).insertionSort fun a b => a.start ≤ b.start).map ends

/-- An acyclic world whose edges carry bounds inside their source. -/
structure Overlapping (world : World) : Prop where
  valid : world.dependencies.Consistent
  rooted : (world.dependencies.vertexLabel world.root).isSome
  acyclic : ∀ v, ¬TransGen world.dependencies.Adjacent v v
  inside : ∀ (e u v : Nat) bound region, world.dependencies.edges[e]? = some (u, v) →
    world.dependencies.edgeLabel e = some bound → world.dependencies.vertexLabel u = some region →
    bound.start ≤ bound.stop ∧ bound.stop ≤ region.size

/-- Every region reachable is expanded once, and its listed parts are disjoint and cover what no edge covers. -/
structure Projects (world : World) (p : Projection) : Prop where
  once : p.expanded.Nodup
  expanded : ∀ v, v ∈ p.expanded ↔ Reachable world.dependencies.Adjacent world.root v
  only : ∀ entry ∈ p.ret, Reachable world.dependencies.Adjacent world.root entry.2
  disjoint : ∀ v, (listed p v).Pairwise fun a b => ∀ x, ¬(Inside x a ∧ Inside x b)
  covers : ∀ v region, Reachable world.dependencies.Adjacent world.root v →
    world.dependencies.vertexLabel v = some region → ∀ x, (∃ part ∈ listed p v, Inside x part) ↔
      x < region.size ∧ ∀ (e w : Nat) bound, world.dependencies.edges[e]? = some (v, w) →
        world.dependencies.edgeLabel e = some bound → ¬(bound.start ≤ x ∧ x < bound.stop)

theorem push_expanded (p : Projection) (last stop v : Nat) : (p.push last stop v).expanded = p.expanded := by
  unfold Projection.push
  split <;> rfl

theorem push_visited (p : Projection) (last stop v : Nat) : (p.push last stop v).visited = p.visited := by
  unfold Projection.push
  split <;> rfl

theorem listed_push_self (p : Projection) (last stop v : Nat) : listed (p.push last stop v) v = listed p v ++ span last stop := by
  unfold Projection.push span
  split <;> simp [listed, ends]

theorem listed_push_other (p : Projection) (last stop : Nat) {v w : Nat} (other : w ≠ v) :
    listed (p.push last stop v) w = listed p w := by
  unfold Projection.push
  split <;> simp [listed, Ne.symm other]

section
variable {world : World} (overlapping : Overlapping world)
include overlapping

theorem Overlapping.mem_bounds {v : Nat} {interval : Nat × Nat} : interval ∈ bounds world.dependencies v ↔
    ∃ (e w : Nat) (bound : Area), world.dependencies.edges[e]? = some (v, w) ∧ world.dependencies.edgeLabel e = some bound ∧
      interval = ends bound := by
  simp only [bounds, List.mem_map, List.mem_insertionSort, List.mem_filterMap]
  constructor
  · intro holds
    obtain ⟨bound, ⟨e, listed, labelled⟩, same⟩ := holds
    cases list : world.dependencies.outEdges[v]? with
    | none => simp [list] at listed
    | some out =>
      rw [list, Option.getD_some] at listed
      obtain ⟨w, edge⟩ := ((overlapping.valid.outList v out list).2 e).mp listed
      exact ⟨e, w, bound, edge, labelled, same.symm⟩
  · intro holds
    obtain ⟨e, w, bound, edge, labelled, same⟩ := holds
    have source := (overlapping.valid.ends e v w edge).1
    obtain ⟨out, list⟩ := Option.isSome_iff_exists.mp ((overlapping.valid.outKeys v).mpr source)
    refine ⟨bound, ⟨e, ?_, labelled⟩, same.symm⟩
    rw [list, Option.getD_some]
    exact ((overlapping.valid.outList v out list).2 e).mpr ⟨w, edge⟩

theorem Overlapping.swept {v : Nat} {region : Region} (label : world.dependencies.vertexLabel v = some region) :
    Swept region.size (bounds world.dependencies v) := by
  constructor
  · refine List.pairwise_map.mpr (List.Pairwise.imp ?_ (List.pairwise_insertionSort _ _))
    intro a b le
    exact le
  · intro interval member
    obtain ⟨e, w, bound, edge, labelled, rfl⟩ := overlapping.mem_bounds.mp member
    exact overlapping.inside e v w bound region edge labelled label

end

section
variable (world : World)

/-- The regions expanded so far were met from the root, and of all others nothing is listed. -/
structure Explored (p : Projection) : Prop where
  once : p.expanded.Nodup
  reached : ∀ w ∈ p.expanded, Reachable world.dependencies.Adjacent world.root w
  visited : ∀ w, w ∈ p.expanded ↔ w = world.root ∨ w ∈ p.visited
  unlisted : ∀ w, w ∉ p.expanded → listed p w = []

/-- All of `w` has been listed, and the regions it overlaps have been expanded. -/
structure Complete (p : Projection) (w : Nat) : Prop where
  listing : ∀ region, world.dependencies.vertexLabel w = some region →
    listed p w = gaps region.size 0 (bounds world.dependencies w)
  targets : ∀ x, world.dependencies.Adjacent w x → x ∈ p.expanded

/-- What a call of `step` changes. -/
structure Extends (before after : Projection) : Prop where
  kept : ∀ w ∈ before.expanded, w ∈ after.expanded ∧ listed after w = listed before w
  done : ∀ w ∈ after.expanded, w ∈ before.expanded ∨ Complete world after w

/-- The loop in `step` for `v`, with `rest` of its edges to go. -/
structure Scanning (v : Nat) (region : Region) (before : Projection) (es rest : List (Nat × Area))
    (state : Nat × Projection) : Prop where
  explored : Explored world state.2
  kept : ∀ w ∈ before.expanded, w ∈ state.2.expanded ∧ (w ≠ v → listed state.2 w = listed before w)
  done : ∀ w ∈ state.2.expanded, w ∈ before.expanded ∨ Complete world state.2 w
  listing : listed state.2 v ++ gaps region.size state.1 (rest.map fun e => ends e.2) =
    gaps region.size 0 (es.map fun e => ends e.2)
  behind : ∀ e ∈ es, e ∈ rest ∨ ∀ x, world.dependencies.target e.1 = some x → x ∈ state.2.expanded
  ahead : ∀ e ∈ rest, e ∈ es

/-- A call of `step` for `v`, which was entered into the visited set, expands it. -/
def Steps (ε : Type) (fuel : Nat) : Prop :=
  ∀ (p : Projection) (v : Nat), v ∉ p.expanded → listed p v = [] →
    Explored world { p with expanded := p.expanded ++ [v] } → world.dependencies.numVertices < fuel + p.expanded.length →
    ∃ q, (Projection.step world.dependencies fuel p v : Outcome ε Projection) = .returns q ∧ Explored world q ∧
      Extends world p q ∧ v ∈ q.expanded

variable {world}

theorem Explored.push {p : Projection} (explored : Explored world p) {v : Nat} (member : v ∈ p.expanded) (last stop : Nat) :
    Explored world (p.push last stop v) := by
  refine ⟨by simpa [push_expanded] using explored.once, by simpa [push_expanded] using explored.reached, ?_, ?_⟩
  · simpa [push_expanded, push_visited] using explored.visited
  · intro w absent
    rw [push_expanded] at absent
    have other : w ≠ v := fun same => absent (same ▸ member)
    rw [listed_push_other _ _ _ other]
    exact explored.unlisted w absent

theorem Complete.push {p : Projection} {w : Nat} (complete : Complete world p w) {v : Nat} (other : w ≠ v) (last stop : Nat) :
    Complete world (p.push last stop v) w :=
  ⟨fun region label => by rw [listed_push_other _ _ _ other]; exact complete.listing region label,
    fun x adjacent => by rw [push_expanded]; exact complete.targets x adjacent⟩

theorem Complete.extend {p q : Projection} {w : Nat} (complete : Complete world p w) (member : w ∈ p.expanded)
    (extends_ : Extends world p q) : Complete world q w :=
  ⟨fun region label => (extends_.kept w member).2.trans (complete.listing region label),
    fun x adjacent => (extends_.kept x (complete.targets x adjacent)).1⟩

theorem Extends.refl (p : Projection) : Extends world p p := ⟨fun _ member => ⟨member, rfl⟩, fun _ => .inl⟩

/-- One edge is done: the part in front of it is listed, then a call for its target changes what it may. -/
theorem Scanning.advance {v last : Nat} {region : Region} {before p q : Projection} {es rest : List (Nat × Area)}
    {e : Nat × Area} (scanning : Scanning world v region before es (e :: rest) (last, p)) (started : v ∈ before.expanded)
    (explored : Explored world q) (extends_ : Extends world (p.push last e.2.start v) q)
    (met : ∀ x, world.dependencies.target e.1 = some x → x ∈ q.expanded) :
    Scanning world v region before es rest (e.2.stop, q) := by
  have kept : ∀ w ∈ p.expanded, w ∈ q.expanded ∧ listed q w = listed (p.push last e.2.start v) w := by
    intro w member
    exact extends_.kept w (by rwa [push_expanded])
  refine ⟨explored, ?_, ?_, ?_, ?_, fun d member => scanning.ahead d (List.mem_cons_of_mem _ member)⟩
  · intro w member
    obtain ⟨inside, same⟩ := scanning.kept w member
    refine ⟨(kept w inside).1, fun other => ?_⟩
    rw [(kept w inside).2, listed_push_other _ _ _ other]
    exact same other
  · intro w member
    rcases extends_.done w member with early | complete
    · rw [push_expanded] at early
      rcases scanning.done w early with first | complete
      · exact .inl first
      · by_cases same : w = v
        · exact .inl (same ▸ started)
        · exact .inr ((complete.push same last e.2.start).extend (by rwa [push_expanded]) extends_)
    · exact .inr complete
  · rw [(kept v (scanning.kept v started).1).2, listed_push_self, List.append_assoc]
    exact scanning.listing
  · intro d member
    rcases scanning.behind d member with ahead | done
    · rcases List.mem_cons.mp ahead with rfl | ahead
      · exact .inr met
      · exact .inl ahead
    · exact .inr fun x target => (kept x (done x target)).1

variable (overlapping : Overlapping world)
include overlapping

theorem Overlapping.ne_root {u v : Nat} (reachable : Reachable world.dependencies.Adjacent world.root u)
    (link : world.dependencies.Adjacent u v) : v ≠ world.root := by
  intro same
  exact overlapping.acyclic world.root (TransGen.tail' (reachable_iff.mp reachable) (same ▸ link))

theorem Explored.length_le {p : Projection} (explored : Explored world p) :
    p.expanded.length ≤ world.dependencies.numVertices := by
  apply length_le_numVertices explored.once
  intro v member
  exact labelled_of_reachable overlapping.valid overlapping.rooted (explored.reached v member)

omit overlapping in
theorem Explored.enter {p : Projection} (explored : Explored world p) {v nx : Nat} (member : v ∈ p.expanded)
    (link : world.dependencies.Adjacent v nx) (fresh : nx ∉ p.expanded) :
    Explored world { p with visited := p.visited.insert nx, expanded := p.expanded ++ [nx] } := by
  have reachable := explored.reached v member
  refine ⟨?_, ?_, ?_, ?_⟩
  · exact explored.once.append (List.nodup_singleton nx) (by simpa using fresh)
  · intro w inside
    rcases List.mem_append.mp inside with early | late
    · exact explored.reached w early
    · exact List.mem_singleton.mp late ▸ reachable.step link
  · intro w
    rw [List.mem_append, List.mem_singleton, explored.visited, Std.ExtTreeSet.mem_insert]
    grind
  · intro w absent
    exact explored.unlisted w fun inside => absent (List.mem_append_left _ inside)

private theorem follow_returns {fuel v : Nat} {region : Region} {before : Projection} {es rest : List (Nat × Area)}
    {e : Nat × Area} {state : Nat × Projection} (steps : Steps world ε fuel) (started : v ∈ before.expanded)
    (owned : ∀ e ∈ es, ∃ w, world.dependencies.edges[e.1]? = some (v, w))
    (enough : world.dependencies.numVertices < fuel + before.expanded.length) (once : before.expanded.Nodup)
    (scanning : Scanning world v region before es (e :: rest) state) :
    ∃ next, (Projection.follow world.dependencies (Projection.step world.dependencies fuel) v state e :
        Outcome ε (Nat × Projection)) = .returns next ∧ Scanning world v region before es rest next := by
  obtain ⟨last, p⟩ := state
  obtain ⟨nx, edge⟩ := owned e (scanning.ahead e List.mem_cons_self)
  have target : world.dependencies.target e.1 = some nx := by simp [target, edge]
  have member := (scanning.kept v started).1
  have link : world.dependencies.Adjacent v nx := ⟨e.1, edge⟩
  have other := overlapping.ne_root (scanning.explored.reached v member) link
  have pushed := scanning.explored.push member last e.2.start
  have seen_iff : nx ∈ p.expanded ↔ nx ∈ (p.push last e.2.start v).visited := by
    rw [push_visited, scanning.explored.visited]
    simp [other]
  by_cases seen : nx ∈ p.expanded
  · refine ⟨(e.2.stop, p.push last e.2.start v), ?_, scanning.advance started pushed (.refl _) ?_⟩
    · simp [Projection.follow, target, Outcome.unwrap, Std.ExtTreeSet.contains_iff_mem, seen_iff.mp seen]
    · intro x same
      rw [target] at same
      rw [push_expanded]
      exact Option.some.inj same ▸ seen
  · have fresh : nx ∉ (p.push last e.2.start v).expanded := by rwa [push_expanded]
    have longer : before.expanded.length ≤ p.expanded.length :=
      (once.subperm fun w inside => (scanning.kept w inside).1).length_le
    obtain ⟨q, stepped, explored, extends_, entered⟩ := steps
      { p.push last e.2.start v with visited := (p.push last e.2.start v).visited.insert nx } nx fresh
      (pushed.unlisted nx fresh) (pushed.enter (by rwa [push_expanded]) link fresh)
      (by simp only [push_expanded]; omega)
    refine ⟨(e.2.stop, q), ?_, scanning.advance started explored ⟨extends_.kept, extends_.done⟩ ?_⟩
    · have absent : nx ∉ (p.push last e.2.start v).visited := fun inside => seen (seen_iff.mpr inside)
      simp [Projection.follow, target, Outcome.unwrap, Std.ExtTreeSet.contains_iff_mem, absent, stepped]
    · intro x same
      rw [target] at same
      exact Option.some.inj same ▸ entered

/-- The edges with their bounds, as `step` sorts them. -/
theorem labelled_edges {v : Nat} {out : List Nat} (list : world.dependencies.outEdges[v]? = some out) :
    ∃ pairs : List (Nat × Area),
      (Outcome.each (fun e => do return (e, ← .unwrap (world.dependencies.edgeLabel e))) out : Outcome ε _) = .returns pairs ∧
        (∀ e, e ∈ out ↔ ∃ b, (e, b) ∈ pairs) ∧
        ((pairs.insertionSort fun a b => a.2.start ≤ b.2.start).map fun e => ends e.2) = bounds world.dependencies v := by
  have labelled : ∀ e ∈ out, ∃ b, world.dependencies.edgeLabel e = some b := by
    intro e member
    obtain ⟨w, edge⟩ := ((overlapping.valid.outList v out list).2 e).mp member
    exact Option.isSome_iff_exists.mp ((overlapping.valid.guarded e).mpr (by simp [edge]))
  have each : ∀ out : List Nat, (∀ e ∈ out, ∃ b, world.dependencies.edgeLabel e = some b) → ∃ pairs : List (Nat × Area),
      (Outcome.each (fun e => do return (e, ← .unwrap (world.dependencies.edgeLabel e))) out : Outcome ε _) = .returns pairs ∧
        pairs.map Prod.fst = out ∧ pairs.map Prod.snd = out.filterMap world.dependencies.edgeLabel := by
    intro out labelled
    induction out with
    | nil => exact ⟨[], rfl, rfl, rfl⟩
    | cons e out ih =>
      obtain ⟨b, label⟩ := labelled e List.mem_cons_self
      obtain ⟨pairs, rest, edges, labels⟩ := ih fun d member => labelled d (List.mem_cons_of_mem _ member)
      refine ⟨(e, b) :: pairs, ?_, by simp [edges], by simp [label, labels]⟩
      simp only [Outcome.each, Outcome.unwrap_eq_returns.mpr label, Outcome.returns_bind, rest]
      rfl
  obtain ⟨pairs, collected, edges, labels⟩ := each out labelled
  refine ⟨pairs, collected, fun e => by simp [← edges], ?_⟩
  have sorted := List.map_insertionSort (r := fun a b : Nat × Area => a.2.start ≤ b.2.start)
    (s := fun a b : Area => a.start ≤ b.start) Prod.snd pairs fun _ _ _ _ => Iff.rfl
  rw [bounds, list, Option.getD_some, ← labels, ← sorted, List.map_map]
  rfl

theorem steps (fuel : Nat) : Steps world ε fuel := by
  induction fuel with
  | zero =>
    intro p v fresh _ explored enough
    have length := explored.length_le overlapping
    rw [List.length_append] at length
    omega
  | succ fuel ih =>
    intro p v fresh unlisted explored enough
    have started : v ∈ p.expanded ++ [v] := by simp
    obtain ⟨region, label⟩ := Option.isSome_iff_exists.mp
      (labelled_of_reachable overlapping.valid overlapping.rooted (explored.reached v started))
    obtain ⟨out, list⟩ := Option.isSome_iff_exists.mp ((overlapping.valid.outKeys v).mpr (by simp [label]))
    obtain ⟨pairs, collected, edges, sorted⟩ := labelled_edges (ε := ε) overlapping list
    have members := (overlapping.valid.outList v out list).2
    generalize same : pairs.insertionSort (fun a b => a.2.start ≤ b.2.start) = es at sorted
    have owned : ∀ e ∈ es, ∃ w, world.dependencies.edges[e.1]? = some (v, w) := by
      intro e member
      rw [← same, List.mem_insertionSort] at member
      exact (members e.1).mp ((edges e.1).mpr ⟨e.2, member⟩)
    have initial : Scanning world v region { p with expanded := p.expanded ++ [v] } es es
        (0, { p with expanded := p.expanded ++ [v] }) := by
      refine ⟨explored, fun w member => ⟨member, fun _ => rfl⟩, fun w => .inl, ?_, fun e => .inl, fun e => id⟩
      rw [show listed { p with expanded := p.expanded ++ [v] } v = [] from unlisted, List.nil_append]
    obtain ⟨⟨last, q⟩, folded, scanning⟩ := Outcome.fold_returns
      (Scanning world v region { p with expanded := p.expanded ++ [v] } es)
      (fun e rest state => follow_returns (ε := ε) overlapping ih started owned
        (by rw [List.length_append, List.length_singleton]; omega) explored.once) es _ initial
    have member := (scanning.kept v started).1
    refine ⟨q.push last region.size v, ?_, scanning.explored.push member _ _, ⟨?_, ?_⟩, by rwa [push_expanded]⟩
    · simp only [Projection.step, label, outgoing, list, Outcome.unwrap_eq_returns.mpr rfl, Outcome.returns_bind, collected,
        same, folded]
      rfl
    · intro w inside
      have other : w ≠ v := fun same => fresh (same ▸ inside)
      obtain ⟨kept, same⟩ := scanning.kept w (List.mem_append_left _ inside)
      rw [push_expanded, listed_push_other _ _ _ other]
      exact ⟨kept, same other⟩
    · intro w inside
      rw [push_expanded] at inside
      by_cases here : w = v
      · subst w
        refine .inr ⟨fun region' label' => ?_, fun x link => ?_⟩
        · rw [label] at label'
          cases label'
          rw [listed_push_self, ← sorted, ← scanning.listing]
          rfl
        · obtain ⟨e, edge⟩ := link
          obtain ⟨b, paired⟩ := (edges e).mp ((members e).mpr ⟨x, edge⟩)
          have inside : (e, b) ∈ es := by rwa [← same, List.mem_insertionSort]
          rw [push_expanded]
          exact (scanning.behind _ inside).resolve_left (by simp) x (by simp [target, edge])
      · rcases scanning.done w inside with early | complete
        · exact .inl ((List.mem_append.mp early).resolve_right (by simpa using here))
        · exact .inr (complete.push here _ _)

/-- The part of the claim that holds of every world, and the listings on which the rest depends. -/
theorem projection_returns {fuel : Nat} (enough : world.dependencies.numVertices < fuel) :
    ∃ p, (world.projection fuel : Outcome ε Projection) = .returns p ∧ Explored world p ∧
      (∀ v, v ∈ p.expanded ↔ Reachable world.dependencies.Adjacent world.root v) ∧ ∀ w ∈ p.expanded, Complete world p w := by
  have first : Explored world ⟨[], ∅, [] ++ [world.root]⟩ := by
    refine ⟨by simp, ?_, by simp, fun _ _ => rfl⟩
    intro w member
    rw [List.nil_append, List.mem_singleton] at member
    exact member ▸ ⟨_, .root⟩
  have nonempty : 0 < world.dependencies.numVertices := first.length_le overlapping
  obtain ⟨p, stepped, explored, extends_, started⟩ := steps (ε := ε) overlapping fuel ⟨[], ∅, []⟩ world.root (by simp) rfl first
    (by simpa using enough)
  have complete : ∀ w ∈ p.expanded, Complete world p w := fun w member => (extends_.done w member).resolve_left (by simp)
  refine ⟨p, by simp [World.projection, nonempty, stepped], explored, fun v => ⟨explored.reached v, ?_⟩, complete⟩
  intro reachable
  have path := reachable_iff.mp reachable
  clear reachable
  induction path with
  | refl => exact started
  | @tail u v _ link member => exact (complete u member).targets v link

/-- The listed parts are what the claim says iff the sweep over each region is right. -/
theorem projects_iff {p : Projection} (explored : Explored world p)
    (expanded : ∀ v, v ∈ p.expanded ↔ Reachable world.dependencies.Adjacent world.root v)
    (complete : ∀ w ∈ p.expanded, Complete world p w) : Projects world p ↔
    ∀ v region, Reachable world.dependencies.Adjacent world.root v → world.dependencies.vertexLabel v = some region →
      Outlasting region.size (bounds world.dependencies v) := by
  have exact_iff : ∀ v region, Reachable world.dependencies.Adjacent world.root v →
      world.dependencies.vertexLabel v = some region → ((∀ x, (∃ part ∈ listed p v, Inside x part) ↔
        x < region.size ∧ ∀ (e w : Nat) bound, world.dependencies.edges[e]? = some (v, w) →
          world.dependencies.edgeLabel e = some bound → ¬(bound.start ≤ x ∧ x < bound.stop)) ↔
        Outlasting region.size (bounds world.dependencies v)) := by
    intro v region reachable label
    rw [← (overlapping.swept label).uncovered_iff fun _ _ => Nat.zero_le _, Uncovered,
      (complete v ((expanded v).mpr reachable)).listing region label]
    refine forall_congr' fun x => iff_congr Iff.rfl ?_
    simp only [Nat.zero_le, true_and]
    refine and_congr_right fun _ => ⟨?_, ?_⟩
    · intro outside interval member
      obtain ⟨e, w, bound, edge, labelled, rfl⟩ := overlapping.mem_bounds.mp member
      exact outside e w bound edge labelled
    · intro outside e w bound edge labelled
      exact outside (ends bound) (overlapping.mem_bounds.mpr ⟨e, w, bound, edge, labelled, rfl⟩)
  constructor
  · intro projects v region reachable label
    exact (exact_iff v region reachable label).mp (projects.covers v region reachable label)
  · intro outlasting
    refine ⟨explored.once, expanded, ?_, ?_, ?_⟩
    · intro entry member
      rw [← expanded]
      by_contra absent
      have empty := explored.unlisted entry.2 absent
      rw [listed, List.map_eq_nil_iff, List.filter_eq_nil_iff] at empty
      exact empty entry member (by simp)
    · intro v
      by_cases member : v ∈ p.expanded
      · obtain ⟨region, label⟩ := Option.isSome_iff_exists.mp
          (labelled_of_reachable overlapping.valid overlapping.rooted (explored.reached v member))
        rw [(complete v member).listing region label]
        refine (overlapping.swept label).gaps_pairwise.imp fun apart x both => ?_
        have behind := both.1.2
        have before := both.2.1
        omega
      · simp [explored.unlisted v member]
    · exact fun v region reachable label => (exact_iff v region reachable label).mpr (outlasting v region reachable label)

/-- What a projection says is right exactly when, among the bounds overlapping a region, none that ends before an
earlier one has a gap behind it. -/
theorem projection_iff {fuel : Nat} (enough : world.dependencies.numVertices < fuel) :
    ∃ p, (world.projection fuel : Outcome ε Projection) = .returns p ∧ (Projects world p ↔
      ∀ v region, Reachable world.dependencies.Adjacent world.root v → world.dependencies.vertexLabel v = some region →
        Outlasting region.size (bounds world.dependencies v)) := by
  obtain ⟨p, returned, explored, expanded, complete⟩ := projection_returns (ε := ε) overlapping enough
  exact ⟨p, returned, projects_iff overlapping explored expanded complete⟩

end

def worldOf (sizes : List Nat) (arcs : List (Area × Nat × Nat)) : World :=
  ⟨.ofLists (sizes.map fun size => .new (.undefined size)) arcs, 0⟩

theorem worldOf_lists {sizes : List Nat} {arcs : List (Area × Nat × Nat)}
    (inside : ∀ arc ∈ arcs, arc.2.1 < sizes.length ∧ arc.2.2 < sizes.length) :
    (worldOf sizes arcs).dependencies.Lists (sizes.map fun size => .new (.undefined size)) arcs :=
  Lists.ofLists (by simpa using inside)

theorem worldOf_size {sizes : List Nat} {arcs : List (Area × Nat × Nat)} {v : Nat} {region : Region}
    (lists : (worldOf sizes arcs).dependencies.Lists (sizes.map fun size => .new (.undefined size)) arcs)
    (label : (worldOf sizes arcs).dependencies.vertexLabel v = some region) : sizes[v]? = some region.size := by
  rw [lists.vertexLabel, List.getElem?_map, Option.map_eq_some_iff] at label
  obtain ⟨size, known, rfl⟩ := label
  exact known

theorem overlapping_worldOf {sizes : List Nat} {arcs : List (Area × Nat × Nat)} (nonempty : 0 < sizes.length)
    (inside : ∀ arc ∈ arcs, arc.2.1 < arc.2.2 ∧ arc.2.2 < sizes.length ∧ arc.1.start ≤ arc.1.stop ∧
      ∀ size ∈ sizes[arc.2.1]?, arc.1.stop ≤ size) : Overlapping (worldOf sizes arcs) := by
  have below : ∀ arc ∈ arcs, arc.2.1 < sizes.length ∧ arc.2.2 < sizes.length := by
    intro arc member
    obtain ⟨less, below, -⟩ := inside arc member
    omega
  have lists := worldOf_lists below
  have arc_of_edge : ∀ (e u v : Nat), (worldOf sizes arcs).dependencies.edges[e]? = some (u, v) →
      ∃ bound, arcs[e]? = some (bound, u, v) := by
    intro e u v edge
    rw [lists.ends, Option.map_eq_some_iff] at edge
    obtain ⟨⟨bound, _, _⟩, found, same⟩ := edge
    cases same
    exact ⟨bound, found⟩
  have rises : ∀ u v, (worldOf sizes arcs).dependencies.Adjacent u v → u < v := by
    intro u v holds
    obtain ⟨e, edge⟩ := holds
    obtain ⟨bound, found⟩ := arc_of_edge e u v edge
    exact (inside _ (List.mem_of_getElem? found)).1
  refine ⟨.ofLists _ _, ?_, ?_, ?_⟩
  · rw [show (worldOf sizes arcs).root = 0 from rfl, lists.vertexLabel]
    simpa using nonempty
  · intro v circle
    have less : ∀ w, TransGen (worldOf sizes arcs).dependencies.Adjacent v w → v < w := by
      intro w path
      induction path with
      | single link => exact rises _ _ link
      | tail _ link ih => exact ih.trans (rises _ _ link)
    exact Nat.lt_irrefl v (less v circle)
  · intro e u v bound region edge labelled label
    obtain ⟨bound', found⟩ := arc_of_edge e u v edge
    rw [edgeLabel, lists.guards, found, Option.map_some, Option.some.injEq] at labelled
    subst labelled
    obtain ⟨-, -, proper, fits⟩ := inside _ (List.mem_of_getElem? found)
    exact ⟨proper, fits _ (worldOf_size lists label)⟩

/-- The program's own example: two overlaps of the root, one of which is overlapped itself. -/
def layered : World := worldOf [128, 64, 48] [(⟨32, 96⟩, 0, 1), (⟨16, 32⟩, 0, 2), (⟨0, 32⟩, 1, 2)]

theorem projection_iff_layered : ∃ p, (layered.projection 4 : Outcome Empty Projection) = .returns p ∧ (Projects layered p ↔
    ∀ v region, Reachable layered.dependencies.Adjacent layered.root v → layered.dependencies.vertexLabel v = some region →
      Outlasting region.size (bounds layered.dependencies v)) :=
  projection_iff (overlapping_worldOf (by decide) (by decide)) (by decide)

def nested : World := worldOf [200, 64] [(⟨0, 100⟩, 0, 1), (⟨10, 20⟩, 0, 1)]

/-- What the outer bound covers is listed behind the inner one. -/
theorem not_projects : ∃ p, Overlapping nested ∧ (nested.projection 3 : Outcome Empty Projection) = .returns p ∧
    ¬Projects nested p := by
  have overlapping : Overlapping nested := overlapping_worldOf (by decide) (by decide)
  obtain ⟨p, returned, explored, expanded, complete⟩ := projection_returns (ε := Empty) overlapping
    (show _ < 3 by decide)
  refine ⟨p, overlapping, returned, ?_⟩
  rw [projects_iff overlapping explored expanded complete]
  intro outlasting
  obtain ⟨region, label⟩ := Option.isSome_iff_exists.mp overlapping.rooted
  have size : 200 = region.size := Option.some.inj (worldOf_size (worldOf_lists (by decide)) label)
  have found : bounds nested.dependencies nested.root = [(0, 100), (10, 20)] := by decide
  have forgotten := outlasting nested.root region ⟨_, .root⟩ label [(0, 100)] (10, 20) [] found
    (by simp [gapEnd, ← size]) (0, 100) (by simp)
  simp at forgotten

end Panopticon.Proofs.World
