import Panopticon.Proofs.Traversal

/-! The calls a depth first visit makes: intervals of vertices are nested or disjoint, the
kind of an edge says where the interval of its target lies, and without the backward edges
no cycle is left. -/

namespace Panopticon.Proofs.DepthFirst
open Library Relation AdjacencyList Proofs.Dominator Proofs.DominatorTotal

variable {N E ε : Type} {g : AdjacencyList N E} {start : Nat}

theorem getElem?_concat {α : Type} {list : List α} {last x : α} {i : Nat} :
    (list ++ [last])[i]? = some x ↔ list[i]? = some x ∨ (i = list.length ∧ last = x) := by
  rcases Nat.lt_trichotomy i list.length with less | same | more
  · simp [List.getElem?_append_left less, Nat.ne_of_lt less]
  · simp [same]
  · simp [List.getElem?_append_right more.le, List.getElem?_eq_none more.le, Nat.ne_of_gt more, List.getElem?_singleton]
    omega

theorem lt_of_getElem? {α : Type} {list : List α} {x : α} {i : Nat} (found : list[i]? = some x) : i < list.length :=
  (List.getElem?_eq_some_iff.mp found).1

abbrev discovered (v : Nat) : Event := .vertex v .discovered

abbrev finished (v : Nat) : Event := .vertex v .finished

/-- Every vertex is discovered and finished once, the open ones lie on the stack, and what was
discovered after a vertex is finished before it. -/
structure Brackets (stack : List Nat) (events : List Event) : Prop where
  once : ∀ v event (i j : Nat), events[i]? = some (Event.vertex v event) → events[j]? = some (Event.vertex v event) → i = j
  opened : ∀ v, v ∈ stack ↔ discovered v ∈ events ∧ finished v ∉ events
  paired : ∀ v (j : Nat), events[j]? = some (finished v) → ∃ i < j, events[i]? = some (discovered v)
  climbing : stack.Pairwise fun child parent => ∀ i j : Nat, events[i]? = some (discovered parent) →
    events[j]? = some (discovered child) → i < j
  nested : ∀ v w (a b c : Nat), events[a]? = some (discovered v) → events[b]? = some (finished v) →
    events[c]? = some (discovered w) → a < c → b < c ∨ ∃ d < b, events[d]? = some (finished w)

namespace Brackets
variable {stack : List Nat} {events : List Event}

theorem once_concat {last : Event} (once : ∀ v event (i j : Nat), events[i]? = some (Event.vertex v event) →
    events[j]? = some (Event.vertex v event) → i = j) (absent : ∀ i : Nat, events[i]? ≠ some last) :
    ∀ v event (i j : Nat), (events ++ [last])[i]? = some (Event.vertex v event) →
      (events ++ [last])[j]? = some (Event.vertex v event) → i = j := by
  intro v event i j first second
  rw [getElem?_concat] at first second
  rcases first with first | ⟨here, same⟩
  · rcases second with second | ⟨-, same⟩
    · exact once v event i j first second
    · exact absurd (same ▸ first) (absent i)
  · rcases second with second | ⟨there, -⟩
    · exact absurd (same ▸ second) (absent j)
    · rw [here, there]

theorem edge (brackets : Brackets stack events) (e : Nat) (kind : EdgeKind) : Brackets stack (events ++ [Event.edge e kind]) := by
  have same : ∀ (i : Nat) v event, (events ++ [Event.edge e kind])[i]? = some (Event.vertex v event) ↔ events[i]? = some (Event.vertex v event) := by
    intro i v event
    simp [getElem?_concat]
  constructor
  · simpa only [same] using brackets.once
  · simpa using brackets.opened
  · simpa only [same] using brackets.paired
  · simpa only [same] using brackets.climbing
  · simpa only [same] using brackets.nested

theorem discover (brackets : Brackets stack events) {v : Nat} (unseen : discovered v ∉ events) :
    Brackets (v :: stack) (events ++ [discovered v]) := by
  have unfinished : finished v ∉ events := by
    intro member
    obtain ⟨j, found⟩ := List.mem_iff_getElem?.mp member
    obtain ⟨i, -, before⟩ := brackets.paired v j found
    exact unseen (List.mem_of_getElem? before)
  have absent : ∀ i : Nat, events[i]? ≠ some (discovered v) := fun i found => unseen (List.mem_of_getElem? found)
  constructor
  · exact once_concat brackets.once absent
  · intro w
    simp only [List.mem_cons, List.mem_append, brackets.opened, List.not_mem_nil, or_false, Event.vertex.injEq, reduceCtorEq, and_false]
    by_cases same : w = v
    · subst w
      simp [unfinished]
    · simp [same]
  · intro w j found
    rw [getElem?_concat] at found
    rcases found with found | ⟨-, other⟩
    · obtain ⟨i, less, before⟩ := brackets.paired w j found
      exact ⟨i, less, getElem?_concat.mpr (.inl before)⟩
    · cases other
  · refine List.pairwise_cons.mpr ⟨?_, ?_⟩
    · intro parent member i j first second
      rw [getElem?_concat] at first second
      have present := ((brackets.opened parent).mp member).1
      rcases first with first | ⟨-, same⟩
      · rcases second with second | ⟨rfl, -⟩
        · exact absurd second (absent j)
        · exact lt_of_getElem? first
      · cases same
        exact absurd present unseen
    · refine brackets.climbing.imp_of_mem ?_
      intro child parent below above climbing i j first second
      rw [getElem?_concat] at first second
      rcases first with first | ⟨-, same⟩
      · rcases second with second | ⟨-, same⟩
        · exact climbing i j first second
        · cases same
          exact absurd ((brackets.opened v).mp below).1 unseen
      · cases same
        exact absurd ((brackets.opened v).mp above).1 unseen
  · intro u w a b c opening closing inner less
    rw [getElem?_concat] at opening closing inner
    rcases closing with closing | ⟨-, other⟩
    · rcases inner with inner | ⟨rfl, -⟩
      · rcases opening with opening | ⟨rfl, -⟩
        · rcases brackets.nested u w a b c opening closing inner less with before | ⟨d, inside, found⟩
          · exact .inl before
          · exact .inr ⟨d, inside, getElem?_concat.mpr (.inl found)⟩
        · exact absurd (lt_of_getElem? inner) (by omega)
      · exact .inl (lt_of_getElem? closing)
    · cases other

theorem finish {v : Nat} (brackets : Brackets (v :: stack) events) : Brackets stack (events ++ [finished v]) := by
  obtain ⟨present, unfinished⟩ := (brackets.opened v).mp List.mem_cons_self
  have absent : ∀ i : Nat, events[i]? ≠ some (finished v) := fun i found => unfinished (List.mem_of_getElem? found)
  obtain ⟨top, climbing⟩ := List.pairwise_cons.mp brackets.climbing
  have later : v ∉ stack := by
    intro member
    obtain ⟨i, found⟩ := List.mem_iff_getElem?.mp present
    exact absurd (top v member i i found found) (Nat.lt_irrefl i)
  have kept : ∀ (i : Nat) w, (events ++ [finished v])[i]? = some (discovered w) ↔
      events[i]? = some (discovered w) := by
    intro i w
    simp [getElem?_concat]
  constructor
  · exact once_concat brackets.once absent
  · intro w
    have opened := brackets.opened w
    rw [List.mem_cons] at opened
    by_cases same : w = v
    · subst w
      simp [later]
    · simpa [same] using opened
  · intro w j found
    rw [getElem?_concat] at found
    rcases found with found | ⟨rfl, same⟩
    · obtain ⟨i, less, before⟩ := brackets.paired w j found
      exact ⟨i, less, (kept i w).mpr before⟩
    · cases same
      obtain ⟨i, before⟩ := List.mem_iff_getElem?.mp present
      exact ⟨i, lt_of_getElem? before, (kept i _).mpr before⟩
  · simpa only [kept] using climbing
  · intro u w a b c opening closing inner less
    rw [kept] at opening inner
    rw [getElem?_concat] at closing
    rcases closing with closing | ⟨rfl, same⟩
    · rcases brackets.nested u w a b c opening closing inner less with before | ⟨d, inside, found⟩
      · exact .inl before
      · exact .inr ⟨d, inside, getElem?_concat.mpr (.inl found)⟩
    · cases same
      -- all that is still open was discovered before `u`
      by_cases closed : finished w ∈ events
      · obtain ⟨d, found⟩ := List.mem_iff_getElem?.mp closed
        exact .inr ⟨d, lt_of_getElem? found, getElem?_concat.mpr (.inl found)⟩
      · have still := (brackets.opened w).mpr ⟨List.mem_of_getElem? inner, closed⟩
        rcases List.mem_cons.mp still with rfl | below
        · have same := brackets.once _ _ a c opening inner
          omega
        · have before := top w below c a inner opening
          omega

theorem nodup (brackets : Brackets stack events) : stack.Nodup := by
  refine brackets.climbing.imp_of_mem ?_
  intro child parent member _ climbing same
  obtain ⟨i, found⟩ := List.mem_iff_getElem?.mp ((brackets.opened child).mp member).1
  exact absurd (climbing i i (same ▸ found) found) (Nat.lt_irrefl i)

end Brackets

/-- The interval of `v` contains position `i`. -/
def Open (events : List Event) (v i : Nat) : Prop :=
  ∃ a < i, events[a]? = some (discovered v) ∧ ∀ b : Nat, events[b]? = some (finished v) → i < b

def TreeEdge (g : AdjacencyList N E) (events : List Event) (u v : Nat) : Prop :=
  ∃ e : Nat, g.edges[e]? = some (u, v) ∧ .edge e .tree ∈ events

/-- What the kind of an edge reported at position `i` says about its ends. -/
def Fits (g : AdjacencyList N E) (events : List Event) (i u v : Nat) : EdgeKind → Prop
  | .tree => events[i + 1]? = some (discovered v)
  | .backward => Open events v i ∧ ReflTransGen (TreeEdge g events) v u
  | .forwardOrCross => ∃ b < i, events[b]? = some (finished v)

theorem Open.concat {events : List Event} {v i : Nat} (opened : Open events v i) (inside : i < events.length) (last : Event) :
    Open (events ++ [last]) v i := by
  obtain ⟨a, less, found, later⟩ := opened
  refine ⟨a, less, getElem?_concat.mpr (.inl found), ?_⟩
  intro b closing
  rcases getElem?_concat.mp closing with closing | ⟨rfl, -⟩
  · exact later b closing
  · exact inside

theorem Open.present {events : List Event} {v i : Nat} (opened : Open events v i) : discovered v ∈ events := by
  obtain ⟨a, -, opening, -⟩ := opened
  exact List.mem_of_getElem? opening

theorem TreeEdge.concat {events : List Event} {u v : Nat} (tree : TreeEdge g events u v) (last : Event) :
    TreeEdge g (events ++ [last]) u v := by
  obtain ⟨e, entry, member⟩ := tree
  exact ⟨e, entry, List.mem_append_left _ member⟩

theorem Fits.concat {events : List Event} {i u v : Nat} {kind : EdgeKind} (fits : Fits g events i u v kind)
    (inside : i < events.length) (last : Event) : Fits g (events ++ [last]) i u v kind := by
  cases kind with
  | tree => exact getElem?_concat.mpr (.inl fits)
  | backward => exact ⟨fits.1.concat inside last, ReflTransGen.mono (fun _ _ tree => tree.concat last) _ _ fits.2⟩
  | forwardOrCross =>
    obtain ⟨b, less, found⟩ := fits
    exact ⟨b, less, getElem?_concat.mpr (.inl found)⟩

/-- An edge was reported while its source was open, as its kind says. -/
def Examined (g : AdjacencyList N E) (events : List Event) (i e : Nat) (kind : EdgeKind) : Prop :=
  ∃ u v, g.edges[e]? = some (u, v) ∧ Open events u i ∧ Fits g events i u v kind

theorem Examined.concat {events : List Event} {i e : Nat} {kind : EdgeKind} (examined : Examined g events i e kind)
    (inside : i < events.length) (last : Event) : Examined g (events ++ [last]) i e kind := by
  obtain ⟨u, v, entry, opened, fits⟩ := examined
  exact ⟨u, v, entry, opened.concat inside last, fits.concat inside last⟩

/-- The calls so far, while the vertices of the stack are being visited. -/
structure Log (g : AdjacencyList N E) (start : Nat) (stack : List Nat) (events : List Event) : Prop
    extends Brackets stack events where
  single : ∀ e first second (i j : Nat), events[i]? = some (.edge e first) → events[j]? = some (.edge e second) → i = j
  examined : ∀ (i : Nat) e kind, events[i]? = some (.edge e kind) → Examined g events i e kind
  linked : stack.IsChain fun child parent => TreeEdge g events parent child
  covered : ∀ v, finished v ∈ events → ∀ e w : Nat, g.edges[e]? = some (v, w) → ∃ kind, .edge e kind ∈ events
  reached : ∀ v, discovered v ∈ events → Reachable g.Adjacent start v
  root : discovered start ∈ events

namespace Log
variable {stack : List Nat} {events : List Event} {u v e : Nat}

theorem initial (g : AdjacencyList N E) (start : Nat) : Log g start [start] [discovered start] := by
  have only : ∀ (i : Nat) x, [discovered start][i]? = some x → i = 0 ∧ x = discovered start := by
    intro i x found
    obtain ⟨inside, rfl⟩ := List.getElem?_eq_some_iff.mp found
    simp only [List.length_singleton, Nat.lt_one_iff] at inside
    simp [inside]
  have brackets : Brackets [start] [discovered start] := by
    have empty : Brackets [] [] := by constructor <;> simp
    exact empty.discover (by simp)
  refine ⟨brackets, ?_, ?_, by simp, by simp, ?_, by simp⟩
  · intro e first second i j here
    cases (only i _ here).2
  · intro i e kind here
    cases (only i _ here).2
  · intro v member
    simp only [List.mem_singleton, Event.vertex.injEq, and_true] at member
    exact member ▸ ⟨_, .root⟩

private theorem opens (log : Log g start stack events) (member : u ∈ stack) (last : Event) (other : last ≠ finished u) :
    Open (events ++ [last]) u events.length := by
  obtain ⟨present, unfinished⟩ := (log.opened u).mp member
  obtain ⟨a, found⟩ := List.mem_iff_getElem?.mp present
  refine ⟨a, lt_of_getElem? found, getElem?_concat.mpr (.inl found), ?_⟩
  intro b closing
  rcases getElem?_concat.mp closing with closing | ⟨-, same⟩
  · exact absurd (List.mem_of_getElem? closing) unfinished
  · exact absurd same other

private theorem single_concat (log : Log g start stack events) (kind : EdgeKind) (fresh : ∀ kind, .edge e kind ∉ events) :
    ∀ d first second (i j : Nat), (events ++ [.edge e kind])[i]? = some (.edge d first) →
      (events ++ [.edge e kind])[j]? = some (.edge d second) → i = j := by
  intro d first second i j here there
  rw [getElem?_concat] at here there
  rcases here with here | ⟨position, same⟩
  · rcases there with there | ⟨-, same⟩
    · exact log.single d first second i j here there
    · cases same
      exact absurd (List.mem_of_getElem? here) (fresh first)
  · rcases there with there | ⟨position', -⟩
    · cases same
      exact absurd (List.mem_of_getElem? there) (fresh second)
    · rw [position, position']

private theorem linked_concat (log : Log g start stack events) (last : Event) :
    stack.IsChain fun child parent => TreeEdge g (events ++ [last]) parent child :=
  log.linked.imp fun _ _ tree => tree.concat last

private theorem covered_concat (log : Log g start stack events) {last : Event} (other : ∀ v, last ≠ finished v) :
    ∀ v, finished v ∈ events ++ [last] → ∀ e w : Nat, g.edges[e]? = some (v, w) → ∃ kind, .edge e kind ∈ events ++ [last] := by
  intro v member e w entry
  rcases List.mem_append.mp member with member | member
  · obtain ⟨kind, before⟩ := log.covered v member e w entry
    exact ⟨kind, List.mem_append_left _ before⟩
  · exact absurd (List.mem_singleton.mp member).symm (other v)

theorem ancestor (log : Log g start (u :: stack) events) (member : v ∈ u :: stack) : ReflTransGen (TreeEdge g events) v u := by
  have linked := log.linked
  clear log
  induction stack generalizing u with
  | nil =>
    rw [List.mem_singleton.mp member]
  | cons parent stack ih =>
    obtain ⟨link, rest⟩ := List.isChain_cons_cons.mp linked
    rcases List.mem_cons.mp member with rfl | member
    · exact .refl
    · exact (ih member rest).tail link

theorem report (log : Log g start (u :: stack) events) {kind : EdgeKind} (entry : g.edges[e]? = some (u, v))
    (fresh : ∀ kind, .edge e kind ∉ events) (fits : Fits g (events ++ [.edge e kind]) events.length u v kind) :
    Log g start (u :: stack) (events ++ [.edge e kind]) := by
  refine ⟨log.toBrackets.edge e kind, log.single_concat kind fresh, ?_, log.linked_concat _,
    log.covered_concat (by simp), ?_, List.mem_append_left _ log.root⟩
  · intro i d other found
    rcases getElem?_concat.mp found with found | ⟨rfl, same⟩
    · exact (log.examined i d other found).concat (lt_of_getElem? found) _
    · cases same
      exact ⟨u, v, entry, log.opens List.mem_cons_self _ (by simp), fits⟩
  · intro w member
    exact log.reached w (by simpa using member)

theorem descend (log : Log g start (u :: stack) events) (entry : g.edges[e]? = some (u, v))
    (fresh : ∀ kind, .edge e kind ∉ events) (unseen : discovered v ∉ events) :
    Log g start (v :: u :: stack) (events ++ [.edge e .tree] ++ [discovered v]) := by
  have tree : TreeEdge g (events ++ [.edge e .tree] ++ [discovered v]) u v := ⟨e, entry, by simp⟩
  have length : (events ++ [Event.edge e .tree]).length = events.length + 1 := by simp
  refine ⟨(log.toBrackets.edge e .tree).discover (by simpa using unseen), ?_, ?_, ?_, ?_, ?_, ?_⟩
  · intro d first second i j here there
    have dropped : ∀ (i : Nat) kind, (events ++ [.edge e .tree] ++ [discovered v])[i]? = some (.edge d kind) →
        (events ++ [.edge e .tree])[i]? = some (.edge d kind) := by
      intro i kind found
      exact (getElem?_concat.mp found).resolve_right (by simp)
    exact log.single_concat .tree fresh d first second i j (dropped i first here) (dropped j second there)
  · intro i d kind found
    rcases getElem?_concat.mp found with found | ⟨-, other⟩
    · rcases getElem?_concat.mp found with found | ⟨rfl, same⟩
      · have inside := lt_of_getElem? found
        exact ((log.examined i d kind found).concat inside _).concat (by omega) _
      · cases same
        refine ⟨u, v, entry, (log.opens List.mem_cons_self _ (by simp)).concat (by omega) _, ?_⟩
        exact getElem?_concat.mpr (.inr ⟨length.symm, rfl⟩)
    · cases other
  · exact List.isChain_cons_cons.mpr ⟨tree, (log.linked_concat _).imp fun _ _ tree => tree.concat _⟩
  · intro w member d x other
    have before : finished w ∈ events := by simpa using member
    obtain ⟨kind, reported⟩ := log.covered w before d x other
    exact ⟨kind, List.mem_append_left _ (List.mem_append_left _ reported)⟩
  · intro w member
    by_cases same : w = v
    · subst w
      have above := (log.opened u).mp List.mem_cons_self
      exact (log.reached u above.1).step ⟨e, entry⟩
    · exact log.reached w (by simpa [same] using member)
  · exact List.mem_append_left _ (List.mem_append_left _ log.root)

theorem finish (log : Log g start (u :: stack) events)
    (complete : ∀ e w : Nat, g.edges[e]? = some (u, w) → ∃ kind, .edge e kind ∈ events) :
    Log g start stack (events ++ [finished u]) := by
  have linked := (log.linked_concat (finished u)).tail
  refine ⟨log.toBrackets.finish, ?_, ?_, linked, ?_, ?_, List.mem_append_left _ log.root⟩
  · intro e first second i j here there
    refine log.single e first second i j ?_ ?_
    · simpa [getElem?_concat] using here
    · simpa [getElem?_concat] using there
  · intro i e kind found
    rcases getElem?_concat.mp found with found | ⟨-, other⟩
    · exact (log.examined i e kind found).concat (lt_of_getElem? found) _
    · cases other
  · intro w member e x entry
    have reported : ∃ kind, .edge e kind ∈ events := by
      by_cases same : w = u
      · exact complete e x (same ▸ entry)
      · exact log.covered w (by simpa [same] using member) e x entry
    obtain ⟨kind, before⟩ := reported
    exact ⟨kind, List.mem_append_left _ before⟩
  · intro w member
    exact log.reached w (by simpa using member)

end Log

def colorOf (events : List Event) (v : Nat) : VertexColor :=
  if finished v ∈ events then .black else if discovered v ∈ events then .gray else .white

/-- The visit is at the top of the stack, with the calls `s.events` made. -/
structure Held (g : AdjacencyList N E) (start : Nat) (stack : List Nat) (s : Visit) : Prop where
  log : Log g start stack s.events
  color : ∀ v, (g.vertexLabel v).isSome → s.color[v]? = some (colorOf s.events v)

theorem Held.report {stack : List Nat} {s : Visit} {u v e : Nat} {kind : EdgeKind} (held : Held g start (u :: stack) s)
    (entry : g.edges[e]? = some (u, v)) (fresh : ∀ kind, .edge e kind ∉ s.events)
    (fits : Fits g (s.events ++ [.edge e kind]) s.events.length u v kind) :
    Held g start (u :: stack) (s.report e kind) := by
  refine ⟨held.log.report entry fresh fits, ?_⟩
  intro w labelled
  simpa [Visit.report, colorOf] using held.color w labelled

theorem Held.descend {stack : List Nat} {s : Visit} {u v e : Nat} (held : Held g start (u :: stack) s)
    (entry : g.edges[e]? = some (u, v)) (fresh : ∀ kind, .edge e kind ∉ s.events) (unseen : discovered v ∉ s.events)
    (unfinished : finished v ∉ s.events) :
    Held g start (v :: u :: stack) ((s.report e .tree).mark v .gray .discovered) := by
  refine ⟨held.log.descend entry fresh unseen, ?_⟩
  intro w labelled
  simp only [Visit.report, Visit.mark, Std.ExtTreeMap.getElem?_insert, Nat.compare_eq_eq]
  split_ifs with same
  · subst w
    simp [colorOf, unfinished]
  · simpa [colorOf, Ne.symm same] using held.color w labelled

theorem Held.finish {stack : List Nat} {s : Visit} {u : Nat} (held : Held g start (u :: stack) s)
    (complete : ∀ e w : Nat, g.edges[e]? = some (u, w) → ∃ kind, .edge e kind ∈ s.events) :
    Held g start stack (s.mark u .black .finished) := by
  refine ⟨held.log.finish complete, ?_⟩
  intro w labelled
  simp only [Visit.mark, Std.ExtTreeMap.getElem?_insert, Nat.compare_eq_eq]
  split_ifs with same
  · subst w
    simp [colorOf]
  · simpa [colorOf, Ne.symm same] using held.color w labelled

/-- From `before` to `after` calls were added, but none about an edge of a vertex on the stack. -/
structure Frame (g : AdjacencyList N E) (stack : List Nat) (before after : List Event) : Prop where
  grown : before ⊆ after
  framed : ∀ x ∈ stack, ∀ (e w : Nat) kind, g.edges[e]? = some (x, w) → .edge e kind ∈ after → .edge e kind ∈ before

theorem Frame.refl (g : AdjacencyList N E) (stack : List Nat) (events : List Event) : Frame g stack events events :=
  ⟨List.Subset.refl _, fun _ _ _ _ _ _ member => member⟩

theorem Frame.trans {stack : List Nat} {first second third : List Event} (left : Frame g stack first second)
    (right : Frame g stack second third) : Frame g stack first third :=
  ⟨List.Subset.trans left.grown right.grown, fun x inside e w kind entry member =>
    left.framed x inside e w kind entry (right.framed x inside e w kind entry member)⟩

theorem Frame.concat {stack : List Nat} {events : List Event} {last : Event}
    (other : ∀ x ∈ stack, ∀ (e w : Nat) kind, g.edges[e]? = some (x, w) → last ≠ .edge e kind) :
    Frame g stack events (events ++ [last]) := by
  refine ⟨List.subset_append_left _ _, ?_⟩
  intro x inside e w kind entry member
  rcases List.mem_append.mp member with member | member
  · exact member
  · exact absurd (List.mem_singleton.mp member).symm (other x inside e w kind entry)

/-- The loop of `visit` over the edges `out` of `u`, when `rest` is left. -/
structure Scanning (g : AdjacencyList N E) (start u : Nat) (stack : List Nat) (before : List Event) (out rest : List Nat)
    (s : Visit) : Prop where
  held : Held g start (u :: stack) s
  ahead : rest <:+ out
  fresh : ∀ e ∈ rest, ∀ kind, .edge e kind ∉ s.events
  behind : ∀ e ∈ out, e ∈ rest ∨ ∃ kind, .edge e kind ∈ s.events
  frame : Frame g stack before s.events

/-- The edge `e` has been reported, and what was called after that has nothing to do with `u` and the stack. -/
theorem Scanning.advance {u e : Nat} {stack : List Nat} {before : List Event} {out rest : List Nat} {s next : Visit}
    {kind : EdgeKind} (scanning : Scanning g start u stack before out (e :: rest) s) (once : out.Nodup)
    (own : ∀ e ∈ out, ∃ w, g.edges[e]? = some (u, w)) (held : Held g start (u :: stack) next)
    (frame : Frame g (u :: stack) (s.report e kind).events next.events) :
    Scanning g start u stack before out rest next := by
  have suffix : rest <:+ out := (List.suffix_cons e rest).trans scanning.ahead
  have nodup := once.sublist scanning.ahead.sublist
  have here : e ∈ out := scanning.ahead.subset List.mem_cons_self
  refine ⟨held, suffix, ?_, ?_, ?_⟩
  · intro d later kind' member
    obtain ⟨x, entry⟩ := own d (suffix.subset later)
    have reported := frame.framed u List.mem_cons_self d x kind' entry member
    rcases List.mem_append.mp reported with reported | reported
    · exact scanning.fresh d (List.mem_cons_of_mem _ later) kind' reported
    · cases List.mem_singleton.mp reported
      exact (List.nodup_cons.mp nodup).1 later
  · intro d member
    rcases scanning.behind d member with ahead | ⟨kind', reported⟩
    · rcases List.mem_cons.mp ahead with rfl | ahead
      · exact .inr ⟨kind, frame.grown (by simp [Visit.report])⟩
      · exact .inl ahead
    · exact .inr ⟨kind', frame.grown (List.mem_append_left _ reported)⟩
  · have outside : u ∉ stack := (List.nodup_cons.mp scanning.held.log.nodup).1
    refine (scanning.frame.trans (Frame.concat ?_)).trans ⟨frame.grown, fun x inside => frame.framed x (List.mem_cons_of_mem _ inside)⟩
    intro x inside d y kind' entry same
    cases same
    obtain ⟨z, entry'⟩ := own e here
    rw [entry] at entry'
    cases entry'
    exact outside inside

theorem Held.backward {stack : List Nat} {s : Visit} {u v : Nat} (held : Held g start (u :: stack) s) (e : Nat)
    (above : v ∈ u :: stack) : Fits g (s.events ++ [.edge e .backward]) s.events.length u v .backward :=
  ⟨held.log.opens above _ (by simp),
    ReflTransGen.mono (fun _ _ tree => tree.concat _) _ _ (held.log.ancestor above)⟩

theorem Held.untouched {stack : List Nat} {s : Visit} {v e w : Nat} {kind : EdgeKind} (held : Held g start stack s)
    (unseen : discovered v ∉ s.events) (entry : g.edges[e]? = some (v, w)) : .edge e kind ∉ s.events := by
  intro member
  obtain ⟨i, found⟩ := List.mem_iff_getElem?.mp member
  obtain ⟨u, x, entry', ⟨a, -, opening, -⟩, -⟩ := held.log.examined i e kind found
  rw [entry] at entry'
  cases entry'
  exact unseen (List.mem_of_getElem? opening)

section Returns
variable (valid : g.Consistent) (entry : (g.vertexLabel start).isSome)
include valid entry

theorem Held.depth {stack : List Nat} {s : Visit} (held : Held g start stack s) : stack.length ≤ g.numVertices := by
  apply length_le_numVertices held.log.nodup
  intro v member
  exact labelled_of_reachable valid entry (held.log.reached v ((held.log.opened v).mp member).1)

/-- What a visit at the top of `stack` has to establish, with `fuel` for what may still be opened. -/
def Visits (ε : Type) (g : AdjacencyList N E) (start fuel : Nat) : Prop :=
  ∀ {stack : List Nat} {s : Visit} {u : Nat}, Held g start (u :: stack) (s.mark u .gray .discovered) →
    (∀ (e w : Nat) kind, g.edges[e]? = some (u, w) → .edge e kind ∉ s.events) → g.numVertices < fuel + stack.length →
    ∃ next, (Visit.visit g fuel s u : Outcome ε Visit) = .returns next ∧ Held g start stack next ∧
      Frame g stack (s.mark u .gray .discovered).events next.events

omit entry in
private theorem examine_returns {fuel u e : Nat} {stack : List Nat} {before : List Event} {out rest : List Nat} {s : Visit}
    (visits : Visits ε g start fuel) (list : g.outEdges[u]? = some out) (enough : g.numVertices < fuel + (u :: stack).length)
    (scanning : Scanning g start u stack before out (e :: rest) s) :
    ∃ next, (Visit.examine g (Visit.visit g fuel) s e : Outcome ε Visit) = .returns next ∧
      Scanning g start u stack before out rest next := by
  obtain ⟨once, members⟩ := valid.outList u out list
  have own : ∀ e ∈ out, ∃ w, g.edges[e]? = some (u, w) := fun e => (members e).mp
  obtain ⟨w, edge⟩ := own e (scanning.ahead.subset List.mem_cons_self)
  have fresh := scanning.fresh e List.mem_cons_self
  have target : g.target e = some w := by simp [target, edge]
  have color := scanning.held.color w (valid.ends e u w edge).2
  by_cases closed : finished w ∈ s.events
  · have fits : Fits g (s.events ++ [.edge e .forwardOrCross]) s.events.length u w .forwardOrCross := by
      obtain ⟨b, found⟩ := List.mem_iff_getElem?.mp closed
      exact ⟨b, lt_of_getElem? found, getElem?_concat.mpr (.inl found)⟩
    refine ⟨s.report e .forwardOrCross, by simp [Visit.examine, target, Outcome.unwrap, color, colorOf, closed], ?_⟩
    exact scanning.advance once own (scanning.held.report edge fresh fits) (.refl _ _ _)
  by_cases seen : discovered w ∈ s.events
  · have fits := scanning.held.backward e ((scanning.held.log.opened w).mpr ⟨seen, closed⟩)
    refine ⟨s.report e .backward, by simp [Visit.examine, target, Outcome.unwrap, color, colorOf, closed, seen], ?_⟩
    exact scanning.advance once own (scanning.held.report edge fresh fits) (.refl _ _ _)
  · have inner := scanning.held.descend edge fresh seen closed
    have untouched : ∀ (d x : Nat) kind, g.edges[d]? = some (w, x) → .edge d kind ∉ (s.report e .tree).events := by
      intro d x kind entry member
      rcases List.mem_append.mp member with member | member
      · exact scanning.held.untouched seen entry member
      · cases List.mem_singleton.mp member
        rw [edge] at entry
        cases entry
        exact seen ((scanning.held.log.opened u).mp List.mem_cons_self).1
    obtain ⟨next, visited, held, frame⟩ := visits inner untouched enough
    refine ⟨next, by simp [Visit.examine, target, Outcome.unwrap, color, colorOf, closed, seen, visited], ?_⟩
    refine scanning.advance once own held ((Frame.concat ?_).trans frame)
    intro x _ d y kind _
    simp

private theorem visit_returns (fuel : Nat) : Visits ε g start fuel := by
  induction fuel with
  | zero =>
    intro stack s u held untouched enough
    have depth := held.depth valid entry
    rw [List.length_cons] at depth
    omega
  | succ fuel ih =>
    intro stack s u held untouched enough
    have present := held.log.reached u (by simp [Visit.mark])
    obtain ⟨out, list⟩ := Option.isSome_iff_exists.mp ((valid.outKeys u).mpr (labelled_of_reachable valid entry present))
    obtain ⟨-, members⟩ := valid.outList u out list
    have initial : Scanning g start u stack (s.mark u .gray .discovered).events out out (s.mark u .gray .discovered) := by
      refine ⟨held, List.suffix_rfl, ?_, fun e => .inl, .refl _ _ _⟩
      intro e inside kind member
      obtain ⟨w, edge⟩ := (members e).mp inside
      exact untouched e w kind edge (by simpa [Visit.mark] using member)
    obtain ⟨last, folded, scanning⟩ := Outcome.fold_returns
      (fun rest => Scanning g start u stack (s.mark u .gray .discovered).events out rest)
      (fun e rest t => examine_returns (ε := ε) valid ih list (by rw [List.length_cons]; omega)) out _ initial
    have complete : ∀ e w : Nat, g.edges[e]? = some (u, w) → ∃ kind, .edge e kind ∈ last.events := by
      intro e w edge
      exact (scanning.behind e ((members e).mpr ⟨w, edge⟩)).resolve_left (by simp)
    refine ⟨last.mark u .black .finished, ?_, scanning.held.finish complete, scanning.frame.trans (Frame.concat (by simp))⟩
    simp only [Visit.visit, outgoing, list, Outcome.unwrap_eq_returns.mpr rfl, Outcome.returns_bind, folded, Outcome.pure_eq]

end Returns

/-- The interval of `u` lies strictly inside that of `v`. -/
def Within (events : List Event) (v u : Nat) : Prop :=
  ∃ a b c d : Nat, events[a]? = some (discovered v) ∧ events[b]? = some (finished v) ∧ events[c]? = some (discovered u) ∧
    events[d]? = some (finished u) ∧ a < c ∧ d < b

def Later (events : List Event) (v u : Nat) : Prop :=
  ∃ a b : Nat, events[a]? = some (finished v) ∧ events[b]? = some (finished u) ∧ b < a

/-- Edges out of reachable vertices, without the backward ones. -/
def Kept (g : AdjacencyList N E) (start : Nat) (events : List Event) (u v : Nat) : Prop :=
  Reachable g.Adjacent start u ∧ ∃ e : Nat, g.edges[e]? = some (u, v) ∧ .edge e .backward ∉ events

/-- Edges out of reachable vertices, the backward ones reversed. -/
def Reversed (g : AdjacencyList N E) (start : Nat) (events : List Event) (u v : Nat) : Prop :=
  Kept g start events u v ∨
    (Reachable g.Adjacent start v ∧ ∃ e : Nat, g.edges[e]? = some (v, u) ∧ .edge e .backward ∈ events)

section Finished
variable {events : List Event} (log : Log g start [] events)
include log

theorem Log.closed {v : Nat} (present : discovered v ∈ events) : finished v ∈ events := by
  by_contra unfinished
  exact List.not_mem_nil ((log.opened v).mpr ⟨present, unfinished⟩)

theorem Log.target_present {i e u v : Nat} {kind : EdgeKind} (found : events[i]? = some (.edge e kind))
    (entry : g.edges[e]? = some (u, v)) : discovered v ∈ events := by
  obtain ⟨u', v', entry', -, fits⟩ := log.examined i e kind found
  rw [entry] at entry'
  cases entry'
  cases kind with
  | tree => exact List.mem_of_getElem? fits
  | backward => exact fits.1.present
  | forwardOrCross =>
    obtain ⟨b, -, closing⟩ := fits
    obtain ⟨a, -, opening⟩ := log.paired v b closing
    exact List.mem_of_getElem? opening

theorem Log.present_of_reachable {v : Nat} (reachable : Reachable g.Adjacent start v) : discovered v ∈ events := by
  have path := reachable_iff.mp reachable
  clear reachable
  induction path with
  | refl => exact log.root
  | @tail u v _ link ih =>
    obtain ⟨e, entry⟩ := link
    obtain ⟨kind, reported⟩ := log.covered u (log.closed ih) e v entry
    obtain ⟨i, found⟩ := List.mem_iff_getElem?.mp reported
    exact log.target_present found entry

theorem Log.within_of_tree {u v : Nat} (tree : TreeEdge g events u v) : Within events u v := by
  obtain ⟨e, entry, member⟩ := tree
  obtain ⟨i, found⟩ := List.mem_iff_getElem?.mp member
  obtain ⟨u', v', entry', ⟨a, less, opening, later⟩, next⟩ := log.examined i e .tree found
  rw [entry] at entry'
  cases entry'
  have next : events[i + 1]? = some (discovered v) := next
  obtain ⟨b, closing⟩ := List.mem_iff_getElem?.mp (log.closed (List.mem_of_getElem? opening))
  have behind := later b closing
  rcases log.nested u v a b (i + 1) opening closing next (by omega) with before | ⟨d, inside, found'⟩
  · omega
  · exact ⟨a, b, i + 1, d, opening, closing, next, found', by omega, inside⟩

theorem Log.within_of_ancestor {v u : Nat} (ancestor : TransGen (TreeEdge g events) v u) : Within events v u := by
  induction ancestor with
  | single tree => exact log.within_of_tree tree
  | @tail w u _ tree ih =>
    obtain ⟨a, b, c, d, opening, closing, opening', closing', first, second⟩ := ih
    obtain ⟨c', d', e, f, middle, middle', opening'', closing'', third, fourth⟩ := log.within_of_tree tree
    have left := log.once _ _ c c' opening' middle
    have right := log.once _ _ d d' closing' middle'
    exact ⟨a, b, e, f, opening, closing, opening'', closing'', by omega, by omega⟩

theorem Log.open_iff {i e u v : Nat} {kind : EdgeKind} (found : events[i]? = some (.edge e kind))
    (entry : g.edges[e]? = some (u, v)) :
    (kind = .backward ↔ Open events v i) ∧ (Open events v i ↔ ReflTransGen (TreeEdge g events) v u) := by
  obtain ⟨u', v', entry', opened, fits⟩ := log.examined i e kind found
  rw [entry] at entry'
  cases entry'
  have backward : kind = .backward ↔ Open events v i := by
    refine ⟨fun same => by subst same; exact fits.1, ?_⟩
    intro holds
    obtain ⟨a, less, opening, later⟩ := holds
    cases kind with
    | tree =>
      have same := log.once _ _ a (i + 1) opening fits
      omega
    | backward => rfl
    | forwardOrCross =>
      obtain ⟨b, before, closing⟩ := fits
      have after := later b closing
      omega
  refine ⟨backward, fun here => ?_, fun ancestor => ?_⟩
  · cases backward.mpr here
    exact fits.2
  · rcases reflTransGen_iff_eq_or_transGen.mp ancestor with rfl | strict
    · exact opened
    · obtain ⟨c, less, opening, later⟩ := opened
      obtain ⟨a, b, c', d, opening', closing, middle, closing', first, second⟩ := log.within_of_ancestor strict
      have same := log.once _ _ c c' opening middle
      have behind := later d closing'
      refine ⟨a, by omega, opening', ?_⟩
      intro b' closing''
      have same' := log.once _ _ b b' closing closing''
      omega

theorem Log.tree_iff {i e u v : Nat} {kind : EdgeKind} (found : events[i]? = some (.edge e kind))
    (entry : g.edges[e]? = some (u, v)) : kind = .tree ↔ events[i + 1]? = some (discovered v) := by
  obtain ⟨u', v', entry', -, fits⟩ := log.examined i e kind found
  rw [entry] at entry'
  cases entry'
  refine ⟨fun same => by subst same; exact fits, ?_⟩
  intro next
  cases kind with
  | tree => rfl
  | backward =>
    obtain ⟨⟨a, less, opening, -⟩, -⟩ := fits
    have same := log.once _ _ a (i + 1) opening next
    omega
  | forwardOrCross =>
    obtain ⟨b, before, closing⟩ := fits
    obtain ⟨a, less, opening⟩ := log.paired v b closing
    have same := log.once _ _ a (i + 1) opening next
    omega

theorem Log.later_trans {v w u : Nat} (first : Later events v w) (second : Later events w u) : Later events v u := by
  obtain ⟨a, b, top, middle, less⟩ := first
  obtain ⟨b', c, middle', bottom, less'⟩ := second
  have same := log.once _ _ b b' middle middle'
  exact ⟨a, c, top, bottom, by omega⟩

theorem Log.acyclic {r : Nat → Nat → Prop} (falling : ∀ u v, r u v → Later events u v) (v : Nat) : ¬TransGen r v v := by
  intro circle
  have later : ∀ u, TransGen r v u → Later events v u := by
    intro u path
    induction path with
    | single link => exact falling _ _ link
    | tail _ link ih => exact log.later_trans ih (falling _ _ link)
  obtain ⟨a, b, first, second, less⟩ := later v circle
  have same := log.once _ _ a b first second
  omega

theorem Log.later_of_kept {u v : Nat} (kept : Kept g start events u v) : Later events u v := by
  obtain ⟨reachable, e, entry, forward⟩ := kept
  have present := log.present_of_reachable reachable
  obtain ⟨kind, reported⟩ := log.covered u (log.closed present) e v entry
  obtain ⟨i, found⟩ := List.mem_iff_getElem?.mp reported
  obtain ⟨u', v', entry', ⟨a, less, opening, later⟩, fits⟩ := log.examined i e kind found
  rw [entry] at entry'
  cases entry'
  cases kind with
  | tree =>
    obtain ⟨a, b, c, d, -, closing, -, closing', -, inside⟩ := log.within_of_tree ⟨e, entry, reported⟩
    exact ⟨b, d, closing, closing', inside⟩
  | backward => exact absurd reported forward
  | forwardOrCross =>
    obtain ⟨d, before, closing'⟩ := fits
    obtain ⟨b, closing⟩ := List.mem_iff_getElem?.mp (log.closed present)
    have behind := later b closing
    exact ⟨b, d, closing, closing', by omega⟩

theorem Log.later_of_reversed {u v : Nat} (other : u ≠ v) (reversed : Reversed g start events u v) : Later events u v := by
  rcases reversed with kept | ⟨-, e, entry, reported⟩
  · exact log.later_of_kept kept
  · obtain ⟨i, found⟩ := List.mem_iff_getElem?.mp reported
    have open_iff := log.open_iff found entry
    have ancestor := open_iff.2.mp (open_iff.1.mp rfl)
    have strict := (reflTransGen_iff_eq_or_transGen.mp ancestor).resolve_left (Ne.symm other)
    obtain ⟨a, b, c, d, -, closing, -, closing', -, inside⟩ := log.within_of_ancestor strict
    exact ⟨b, d, closing, closing', inside⟩

end Finished

/-- What a visit reports about the part of a graph that is reachable from `start`. -/
structure WellNested (g : AdjacencyList N E) (start : Nat) (events : List Event) : Prop where
  intervals : ∀ v, Reachable g.Adjacent start v → ∃ i j : Nat, i < j ∧ (∀ k : Nat, events[k]? = some (discovered v) ↔ k = i) ∧
    ∀ k : Nat, events[k]? = some (finished v) ↔ k = j
  nested : ∀ v w (a b c d : Nat), v ≠ w → events[a]? = some (discovered v) → events[b]? = some (finished v) →
    events[c]? = some (discovered w) → events[d]? = some (finished w) →
    b < c ∨ d < a ∨ (a < c ∧ d < b) ∨ (c < a ∧ b < d)
  reported : ∀ e u v : Nat, g.edges[e]? = some (u, v) → Reachable g.Adjacent start u →
    ∃ i kind, ∀ (j : Nat) other, events[j]? = some (.edge e other) ↔ j = i ∧ other = kind
  tree : ∀ (i e u v : Nat) kind, events[i]? = some (.edge e kind) → g.edges[e]? = some (u, v) →
    (kind = .tree ↔ events[i + 1]? = some (discovered v))
  backward : ∀ (i e u v : Nat) kind, events[i]? = some (.edge e kind) → g.edges[e]? = some (u, v) →
    (kind = .backward ↔ Open events v i) ∧ (Open events v i ↔ ReflTransGen (TreeEdge g events) v u)
  deleting : ∀ v, ¬TransGen (Kept g start events) v v
  reversing : ∀ v, ¬TransGen (fun u w => u ≠ w ∧ Reversed g start events u w) v v

theorem Log.wellNested {events : List Event} (log : Log g start [] events) : WellNested g start events := by
  constructor
  · intro v reachable
    obtain ⟨j, closing⟩ := List.mem_iff_getElem?.mp (log.closed (log.present_of_reachable reachable))
    obtain ⟨i, less, opening⟩ := log.paired v j closing
    refine ⟨i, j, less, fun k => ⟨fun found => log.once _ _ k i found opening, ?_⟩,
      fun k => ⟨fun found => log.once _ _ k j found closing, ?_⟩⟩
    · exact fun same => same ▸ opening
    · exact fun same => same ▸ closing
  · intro v w a b c d other opening closing opening' closing'
    rcases Nat.lt_trichotomy a c with less | same | more
    · rcases log.nested v w a b c opening closing opening' less with before | ⟨d', inside, found⟩
      · exact .inl before
      · have same := log.once _ _ d d' closing' found
        exact .inr (.inr (.inl ⟨less, by omega⟩))
    · rw [same, opening'] at opening
      cases opening
      exact absurd rfl other
    · rcases log.nested w v c d a opening' closing' opening more with before | ⟨b', inside, found⟩
      · exact .inr (.inl before)
      · have same := log.once _ _ b b' closing found
        exact .inr (.inr (.inr ⟨more, by omega⟩))
  · intro e u v entry reachable
    obtain ⟨kind, reported⟩ := log.covered u (log.closed (log.present_of_reachable reachable)) e v entry
    obtain ⟨i, found⟩ := List.mem_iff_getElem?.mp reported
    refine ⟨i, kind, fun j other => ⟨fun there => ?_, fun both => by rw [both.1, both.2, found]⟩⟩
    have same := log.single e other kind j i there found
    subst j
    rw [found] at there
    cases there
    exact ⟨rfl, rfl⟩
  · exact fun i e u v kind => log.tree_iff
  · exact fun i e u v kind => log.open_iff
  · exact log.acyclic fun u v => log.later_of_kept
  · exact log.acyclic fun u v step => log.later_of_reversed step.1 step.2

/-- A visit ends, its events are well nested, and its edges are classified. -/
theorem depthFirstVisit_wellNested (valid : g.Consistent) (entry : (g.vertexLabel start).isSome) (vertices : Enumeration Nat)
    {fuel : Nat} (enough : g.numVertices < fuel) :
    ∃ events, (depthFirstVisit g vertices fuel start : Outcome ε _) = .returns events ∧ WellNested g start events := by
  have held : Held g start [start] (Visit.mark ⟨(g.vertices vertices).foldl (fun color v => color.insert v .white) ∅, []⟩
      start .gray .discovered) := by
    refine ⟨.initial g start, ?_⟩
    intro v labelled
    simp only [Visit.mark, Std.ExtTreeMap.getElem?_insert, Nat.compare_eq_eq, List.nil_append]
    split_ifs with same
    · simp [colorOf, same]
    · rw [getElem?_foldl_insert, if_pos ((mem_vertices g vertices v).mpr labelled)]
      simp [colorOf, Ne.symm same]
  obtain ⟨last, visited, ended, -⟩ := visit_returns (ε := ε) valid entry fuel held (by simp) (by simpa using enough)
  exact ⟨last.events, by simp [depthFirstVisit, visited], ended.log.wellNested⟩

/-- A cycle, and a vertex with an edge to itself that is reached in two ways. -/
def ring : AdjacencyList Unit Unit :=
  .ofLists [(), (), (), ()] [((), 0, 1), ((), 1, 2), ((), 2, 0), ((), 0, 3), ((), 2, 3), ((), 3, 3)]

theorem ring_wellNested : ∃ events, (depthFirstVisit ring .reversed 5 0 : Outcome Empty _) = .returns events ∧
    WellNested ring 0 events :=
  depthFirstVisit_wellNested (.ofLists _ _) (by decide) .reversed (by decide)

def selfLoop : AdjacencyList Unit Unit := .ofLists [()] [((), 0, 0)]

/-- The edge is backward, and reversing it leaves the cycle it is. -/
theorem selfLoop_reversed : (depthFirstVisit selfLoop .canonical 2 0 : Outcome Empty _) =
      .returns [discovered 0, .edge 0 .backward, finished 0] ∧
    TransGen (Reversed selfLoop 0 [discovered 0, .edge 0 .backward, finished 0]) 0 0 := by
  refine ⟨by decide, .single (.inr ⟨⟨_, .root⟩, 0, ?_, by simp⟩)⟩
  decide

end Panopticon.Proofs.DepthFirst
