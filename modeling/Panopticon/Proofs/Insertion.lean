import Panopticon.Program
import Panopticon.Proofs.Store

/-! The call graph after any sequence of insertions. A call finds the functions and
placeholders that are there already; a function never finds the placeholders
that earlier callers have left for its start address. -/

namespace Panopticon.Proofs.Insertion
open Library Program AdjacencyList

def StartsAt (f : Function) (a : UInt64) : Prop := (f.start : Outcome Empty UInt64) = .returns a

def Targets (f : Function) (t : Rvalue) : Prop := ∃ v, t ∈ Function.blockCalls (f.cflowGraph.vertexLabel v)

/-- The function calls the constant address `a`. -/
def Calls (f : Function) (a : UInt64) : Prop := ∃ size, Targets f (.constant a size)

/-- A vertex with this label stands for the call target `a`. -/
def Answers (a : Rvalue) : CallTarget → Prop
  | .concrete f => ∃ value size, a = .constant value size ∧ StartsAt f value
  | .todo target _ _ => target = a
  | .symbolic _ _ => False

theorem StartsAt.returns {ε : Type} {f : Function} {a : UInt64} (starts : StartsAt f a) :
    (f.start : Outcome ε UInt64) = .returns a := by
  unfold StartsAt Function.start at starts
  unfold Function.start
  split at starts
  · cases starts
    rfl
  · cases starts

theorem StartsAt.unique {f : Function} {a b : UInt64} (first : StartsAt f a) (second : StartsAt f b) : a = b := by
  unfold StartsAt at first second
  rw [first] at second
  cases second
  rfl

theorem mem_collectCalls {f : Function} {blocks : Enumeration Nat} {t : Rvalue} :
    t ∈ f.collectCalls blocks ↔ Targets f t := by
  simp only [Function.collectCalls, List.mem_flatMap, mem_vertices, Targets]
  constructor
  · intro holds
    obtain ⟨v, _, inside⟩ := holds
    exact ⟨v, inside⟩
  · intro holds
    obtain ⟨v, inside⟩ := holds
    refine ⟨v, ?_, inside⟩
    cases label : f.cflowGraph.vertexLabel v with
    | none => simp [label, Function.blockCalls] at inside
    | some lb => rfl

/-- A store without parallel edges whose functions all have a start address. -/
structure Sound (g : CallGraph) : Prop where
  valid : g.Consistent
  simple : ∀ (e e' : Nat) ends, g.edges[e]? = some ends → g.edges[e']? = some ends → e = e'
  started : ∀ v f, g.vertexLabel v = some (.concrete f) → ∃ a, StartsAt f a

private theorem findCallee_spec {ε : Type} {g : CallGraph} (sound : Sound g) (a : Rvalue) (items : List Nat) :
    ∃ found, (findCallee g a items : Outcome ε _) = .returns found ∧
      (∀ w, found = some w → ∃ lb, g.vertexLabel w = some lb ∧ Answers a lb) ∧
      (found = none → ∀ w ∈ items, ∀ lb, g.vertexLabel w = some lb → ¬ Answers a lb) := by
  induction items with
  | nil => exact ⟨none, rfl, by simp, by simp⟩
  | cons w items ih =>
    obtain ⟨found, rest, hit, miss⟩ := ih
    -- the vertex either answers the call or is passed over
    have step : (∃ lb, g.vertexLabel w = some lb ∧ Answers a lb ∧
          (findCallee g a (w :: items) : Outcome ε _) = .returns (some w)) ∨
        ((∀ lb, g.vertexLabel w = some lb → ¬ Answers a lb) ∧
          (findCallee g a (w :: items) : Outcome ε _) = .returns found) := by
      cases label : g.vertexLabel w with
      | none => exact .inr ⟨by simp, by simp [findCallee, label, rest]⟩
      | some lb =>
        cases lb with
        | concrete f =>
          obtain ⟨start, starts⟩ := sound.started w f label
          cases a with
          | constant value size =>
            by_cases same : value = start
            · subst value
              exact .inl ⟨_, rfl, ⟨start, size, rfl, starts⟩, by simp [findCallee, label, starts.returns]⟩
            · refine .inr ⟨?_, by simp [findCallee, label, starts.returns, same, rest]⟩
              intro lb equal
              cases equal
              intro holds
              obtain ⟨value', size', equal, starts'⟩ := holds
              cases equal
              exact same (starts'.unique starts)
          | undefined => exact .inr ⟨by simp [Answers], by simp [findCallee, label, rest]⟩
          | var name subscript offset size => exact .inr ⟨by simp [Answers], by simp [findCallee, label, rest]⟩
        | symbolic name uuid => exact .inr ⟨by simp [Answers], by simp [findCallee, label, rest]⟩
        | todo target name uuid =>
          by_cases same : target = a
          · exact .inl ⟨_, rfl, same, by simp [findCallee, label, same]⟩
          · exact .inr ⟨by simpa [Answers] using same, by simp [findCallee, label, same, rest]⟩
    rcases step with ⟨lb, label, answers, returned⟩ | ⟨silent, returned⟩
    · refine ⟨some w, returned, ?_, by simp⟩
      intro w' same
      cases same
      exact ⟨lb, label, answers⟩
    · exact ⟨found, returned, hit, fun none => List.forall_mem_cons.mpr ⟨silent, miss none⟩⟩

/-- Nothing is taken away. -/
structure Grows (g g' : CallGraph) : Prop where
  labels : ∀ v lb, g.vertexLabel v = some lb → g'.vertexLabel v = some lb
  edges : ∀ (e : Nat) ends, g.edges[e]? = some ends → g'.edges[e]? = some ends

theorem Grows.refl (g : CallGraph) : Grows g g := ⟨fun _ _ label => label, fun _ _ stored => stored⟩

theorem Grows.trans {g g' g'' : CallGraph} (first : Grows g g') (second : Grows g' g'') : Grows g g'' :=
  ⟨fun v lb label => second.labels v lb (first.labels v lb label),
    fun e ends stored => second.edges e ends (first.edges e ends stored)⟩

theorem Grows.adjacent {g g' : CallGraph} (grows : Grows g g') {u v : Nat} (edge : g.Adjacent u v) : g'.Adjacent u v := by
  obtain ⟨e, stored⟩ := edge
  exact ⟨e, grows.edges e _ stored⟩

theorem vertexLabel_addVertex (g : CallGraph) (lb : CallTarget) (v : Nat) :
    (g.addVertex lb).1.vertexLabel v = if g.nextVertex = v then some lb else g.vertexLabel v := by
  simp only [addVertex, vertexLabel, Std.ExtTreeMap.getElem?_insert, Nat.compare_eq_eq]

theorem unlabelled_next {g : CallGraph} (sound : Sound g) : g.vertexLabel g.nextVertex = none := by
  cases label : g.vertexLabel g.nextVertex with
  | none => rfl
  | some lb => exact absurd (sound.valid.freshVertex _ (by simp [label])) (Nat.lt_irrefl _)

theorem addVertex_grows {g : CallGraph} (sound : Sound g) (lb : CallTarget) : Grows g (g.addVertex lb).1 := by
  refine ⟨fun v old label => ?_, fun _ _ stored => stored⟩
  rw [vertexLabel_addVertex, if_neg]
  · exact label
  · intro same
    rw [← same, unlabelled_next sound] at label
    cases label

theorem addVertex_sound {g : CallGraph} (sound : Sound g) {lb : CallTarget}
    (started : ∀ f, lb = .concrete f → ∃ a, StartsAt f a) : Sound (g.addVertex lb).1 := by
  refine ⟨sound.valid.addVertex lb, sound.simple, fun v f label => ?_⟩
  rw [vertexLabel_addVertex] at label
  split at label
  · exact started f (Option.some.inj label)
  · exact sound.started v f label

theorem addEdge_spec {g : CallGraph} (sound : Sound g) {u v : Nat} (first : (g.vertexLabel u).isSome)
    (last : (g.vertexLabel v).isSome) (new : ¬ g.Adjacent u v) :
    Sound (g.addEdge () u v).1 ∧ Grows g (g.addEdge () u v).1 ∧ (g.addEdge () u v).1.Adjacent u v ∧
      (g.addEdge () u v).1.vertexLabel = g.vertexLabel := by
  obtain ⟨into, foundIn⟩ := Option.isSome_iff_exists.mp ((sound.valid.inKeys v).mpr last)
  obtain ⟨out, foundOut⟩ := Option.isSome_iff_exists.mp ((sound.valid.outKeys u).mpr first)
  have present : (g.vertexLabels.contains u && g.vertexLabels.contains v) = true := by
    simp only [Bool.and_eq_true, Std.ExtTreeMap.contains_eq_isSome_getElem?]
    exact ⟨first, last⟩
  have edges : (g.addEdge () u v).1.edges = g.edges.insert g.nextEdge (u, v) := by
    simp only [addEdge, present, foundIn, foundOut, ite_true]
  have labels : (g.addEdge () u v).1.vertexLabel = g.vertexLabel := by
    funext w
    simp only [addEdge, present, foundIn, foundOut, ite_true, vertexLabel]
  have unused : g.edges[g.nextEdge]? = none := by
    by_contra taken
    exact absurd (sound.valid.fresh _ (Option.isSome_iff_ne_none.mpr taken)) (Nat.lt_irrefl _)
  have stored : ∀ (e : Nat) ends, (g.addEdge () u v).1.edges[e]? = some ends ↔
      g.edges[e]? = some ends ∨ (e = g.nextEdge ∧ ends = (u, v)) := by
    intro e ends
    rw [edges]
    simp only [Std.ExtTreeMap.getElem?_insert, Nat.compare_eq_eq]
    split
    · next same =>
      subst e
      simp [unused, eq_comm]
    · next other => simp [Ne.symm other]
  refine ⟨⟨sound.valid.addEdge () u v, ?_, fun w f label => sound.started w f (by rw [← labels]; exact label)⟩, ?_, ?_, labels⟩
  · intro e e' ends here there
    rcases (stored e ends).mp here with old | ⟨rfl, rfl⟩
    · rcases (stored e' ends).mp there with old' | ⟨rfl, rfl⟩
      · exact sound.simple e e' ends old old'
      · exact absurd ⟨e, old⟩ new
    · rcases (stored e' _).mp there with old' | ⟨rfl, -⟩
      · exact absurd ⟨e', old'⟩ new
      · rfl
  · exact ⟨fun w lb label => by rw [labels]; exact label, fun e ends old => (stored e ends).mpr (.inl old)⟩
  · exact ⟨g.nextEdge, (stored _ _).mpr (.inr ⟨rfl, rfl⟩)⟩

private theorem edge_spec {ε : Type} {g : CallGraph} (sound : Sound g) {u : Nat} (labelled : (g.vertexLabel u).isSome) (v : Nat) :
    ∃ found, (g.edge u v : Outcome ε _) = .returns found ∧ (found.isSome ↔ g.Adjacent u v) := by
  obtain ⟨out, list⟩ := Option.isSome_iff_exists.mp ((sound.valid.outKeys u).mpr labelled)
  have members := (sound.valid.outList u out list).2
  have search : ∀ items : List Nat, (∀ e ∈ items, ∃ w, g.edges[e]? = some (u, w)) →
      ∃ found, (firstInto g v items : Outcome ε _) = .returns found ∧
        (found.isSome ↔ ∃ e ∈ items, g.edges[e]? = some (u, v)) := by
    intro items
    induction items with
    | nil => exact fun _ => ⟨none, rfl, by simp⟩
    | cons e items ih =>
      intro inside
      obtain ⟨w, stored⟩ := inside e List.mem_cons_self
      obtain ⟨found, rest, exact⟩ := ih fun e member => inside e (List.mem_cons_of_mem _ member)
      have target : g.target e = some w := by simp [target, stored]
      by_cases same : w = v
      · subst w
        exact ⟨some e, by simp [firstInto, target, Outcome.unwrap], by simp [stored]⟩
      · refine ⟨found, by simp [firstInto, target, Outcome.unwrap, same, rest], ?_⟩
        rw [exact]
        simp [stored, same]
  obtain ⟨found, returned, exact⟩ := search out fun e member => (members e).mp member
  refine ⟨found, by simp [AdjacencyList.edge, outgoing, list, Outcome.unwrap, returned], ?_⟩
  rw [exact]
  constructor
  · intro holds
    obtain ⟨e, _, stored⟩ := holds
    exact ⟨e, stored⟩
  · intro holds
    obtain ⟨e, stored⟩ := holds
    exact ⟨e, (members e).mpr ⟨v, stored⟩, stored⟩

section Linking
variable {ε : Type} {choices : Choices} {base : CallGraph} {newVx : Nat} {calls : List Rvalue}

/-- Loop invariant over the calls: new vertices are placeholders for calls nothing in `base` answers, and every
call made so far has an answer that is linked or on the list. -/
structure Linked (choices : Choices) (base : CallGraph) (newVx : Nat) (calls done : List Rvalue) (link : Linking) : Prop where
  sound : Sound link.callGraph
  grows : Grows base link.callGraph
  added : ∀ v lb, link.callGraph.vertexLabel v = some lb → base.vertexLabel v = some lb ∨
    ∃ a ∈ calls, ∃ k, lb = .todo a none (choices.fresh k) ∧ ∀ w old, base.vertexLabel w = some old → ¬ Answers a old
  others : ∀ w ∈ link.otherFuns, (link.callGraph.vertexLabel w).isSome
  answered : ∀ a ∈ done, ∃ w lb, link.callGraph.vertexLabel w = some lb ∧ Answers a lb ∧
    (w ∈ link.otherFuns ∨ link.callGraph.Adjacent newVx w)

theorem Linked.step {done : List Rvalue} {link : Linking} {a : Rvalue} (linked : Linked choices base newVx calls done link)
    (present : (base.vertexLabel newVx).isSome) (member : a ∈ calls) :
    ∃ next, (linkCall choices newVx link a : Outcome ε _) = .returns next ∧
      Linked choices base newVx calls (done ++ [a]) next := by
  obtain ⟨found, returned, hit, miss⟩ := findCallee_spec (ε := ε) linked.sound a
    (link.callGraph.vertices (choices.calls link.turn))
  cases found with
  | some w =>
    obtain ⟨lb, label, answers⟩ := hit w rfl
    refine ⟨_, by simp only [linkCall, returned, Outcome.returns_bind, Outcome.pure_eq]; rfl, ?_⟩
    refine ⟨linked.sound, linked.grows, linked.added, ?_, ?_⟩
    · intro w' listed
      rcases List.mem_append.mp listed with old | new
      · exact linked.others w' old
      · rw [List.mem_singleton.mp new, label]
        rfl
    · intro b listed
      rcases List.mem_append.mp listed with old | new
      · obtain ⟨w', lb', label', answers', cause⟩ := linked.answered b old
        exact ⟨w', lb', label', answers', cause.imp_left fun inside => List.mem_append_left _ inside⟩
      · rw [List.mem_singleton.mp new]
        exact ⟨w, lb, label, answers, .inl (by simp)⟩
  | none =>
    have silent : ∀ w old, link.callGraph.vertexLabel w = some old → ¬ Answers a old := by
      intro w old label
      exact miss rfl w (by simp [label]) old label
    -- the placeholder is a vertex of its own, so no edge leads to it yet
    have todo : ∀ f, CallTarget.todo a none (choices.fresh link.todos.length) = .concrete f → ∃ a, StartsAt f a := by simp
    have grown := addVertex_grows linked.sound (.todo a none (choices.fresh link.todos.length))
    have sound := addVertex_sound linked.sound todo
    have old : (link.callGraph.vertexLabel newVx).isSome := by
      obtain ⟨lb, label⟩ := Option.isSome_iff_exists.mp present
      simp [linked.grows.labels newVx lb label]
    have here : ((link.callGraph.addVertex (.todo a none (choices.fresh link.todos.length))).1.vertexLabel newVx).isSome := by
      obtain ⟨lb, label⟩ := Option.isSome_iff_exists.mp old
      simp [grown.labels newVx lb label]
    have there : (link.callGraph.addVertex (.todo a none (choices.fresh link.todos.length))).1.vertexLabel
        link.callGraph.nextVertex = some (.todo a none (choices.fresh link.todos.length)) := by
      rw [vertexLabel_addVertex, if_pos rfl]
    have apart : ¬ (link.callGraph.addVertex (.todo a none (choices.fresh link.todos.length))).1.Adjacent newVx
        link.callGraph.nextVertex := by
      intro holds
      obtain ⟨e, stored⟩ := holds
      have labelled := (linked.sound.valid.ends e _ _ stored).2
      rw [unlabelled_next linked.sound] at labelled
      cases labelled
    obtain ⟨sound', grown', edge, labels⟩ := addEdge_spec sound here (by simp [there]) apart
    refine ⟨_, by simp only [linkCall, returned, Outcome.returns_bind, Outcome.pure_eq]; rfl, ?_⟩
    refine ⟨sound', linked.grows.trans (grown.trans grown'), ?_, ?_, ?_⟩
    · intro v lb label
      have label : ((link.callGraph.addVertex (.todo a none (choices.fresh link.todos.length))).1.addEdge () newVx
        link.callGraph.nextVertex).1.vertexLabel v = some lb := label
      rw [labels, vertexLabel_addVertex] at label
      split at label
      · cases label
        refine .inr ⟨a, member, link.todos.length, rfl, fun w old label => ?_⟩
        exact silent w old (linked.grows.labels w old label)
      · exact linked.added v lb label
    · intro w listed
      obtain ⟨lb, label⟩ := Option.isSome_iff_exists.mp (linked.others w listed)
      exact Option.isSome_of_eq_some ((grown.trans grown').labels w lb label)
    · intro b listed
      rcases List.mem_append.mp listed with old | new
      · obtain ⟨w, lb, label, answers, cause⟩ := linked.answered b old
        exact ⟨w, lb, (grown.trans grown').labels w lb label, answers,
          cause.imp_right fun edge => (grown.trans grown').adjacent edge⟩
      · rw [List.mem_singleton.mp new]
        exact ⟨link.callGraph.nextVertex, _, grown'.labels _ _ there, rfl, .inr edge⟩

private theorem linkCalls_spec (choices : Choices) (sound : Sound base) (present : (base.vertexLabel newVx).isSome) (calls : List Rvalue) :
    ∃ link, (Outcome.fold (linkCall choices newVx) ⟨base, [], [], 0⟩ calls : Outcome ε _) = .returns link ∧
      Linked choices base newVx calls calls link := by
  obtain ⟨link, folded, done, split, linked⟩ := Outcome.fold_returns (f := linkCall (ε := ε) choices newVx)
    (fun rest link => ∃ done, done ++ rest = calls ∧ Linked choices base newVx calls done link)
    (fun a rest link holds => by
      obtain ⟨done, split, linked⟩ := holds
      obtain ⟨next, returned, linked⟩ := linked.step (ε := ε) present (a := a) (by simp [← split])
      exact ⟨next, returned, done ++ [a], by simp [← split], linked⟩)
    calls ⟨base, [], [], 0⟩ ⟨[], rfl, sound, .refl base, fun _ _ label => .inl label, by simp, by simp⟩
  rw [List.append_nil] at split
  exact ⟨link, folded, split ▸ linked⟩

private theorem linkFunctions_spec (sound : Sound base) (present : (base.vertexLabel newVx).isSome) (others : List Nat)
    (labelled : ∀ w ∈ others, (base.vertexLabel w).isSome) :
    ∃ g, (Outcome.fold (linkFunction newVx) base others : Outcome ε _) = .returns g ∧ Sound g ∧ Grows base g ∧
      g.vertexLabel = base.vertexLabel ∧ ∀ w ∈ others, g.Adjacent newVx w := by
  obtain ⟨g, folded, sound, grows, labels, -, all⟩ := Outcome.fold_returns (f := linkFunction (ε := ε) newVx)
    (fun rest g => Sound g ∧ Grows base g ∧ g.vertexLabel = base.vertexLabel ∧ rest ⊆ others ∧
      ∀ w ∈ others, w ∈ rest ∨ g.Adjacent newVx w)
    (fun w rest g holds => by
      obtain ⟨sound, grows, labels, inside, all⟩ := holds
      obtain ⟨found, returned, exact⟩ := edge_spec (ε := ε) sound (labels ▸ present) w
      have rest_inside : rest ⊆ others := fun w listed => inside (List.mem_cons_of_mem _ listed)
      by_cases linked : g.Adjacent newVx w
      · have some : found.isSome := exact.mpr linked
        refine ⟨g, ?_, sound, grows, labels, rest_inside, fun w' listed => ?_⟩
        · simp [linkFunction, returned, Option.isNone_iff_eq_none, Option.isSome_iff_ne_none.mp some]
        · rcases all w' listed with member | edge
          · rcases List.mem_cons.mp member with rfl | later
            · exact .inr linked
            · exact .inl later
          · exact .inr edge
      · have none : found = none := by
          rw [← Option.not_isSome_iff_eq_none, exact]
          exact linked
        obtain ⟨sound', grows', edge, labels'⟩ := addEdge_spec sound (labels ▸ present)
          (labels ▸ labelled w (inside List.mem_cons_self)) linked
        refine ⟨(g.addEdge () newVx w).1, by simp [linkFunction, returned, none], sound', grows.trans grows',
          labels'.trans labels, rest_inside, fun w' listed => ?_⟩
        rcases all w' listed with member | old
        · rcases List.mem_cons.mp member with rfl | later
          · exact .inr edge
          · exact .inl later
        · exact .inr (grows'.adjacent old))
    others base ⟨sound, .refl base, rfl, List.Subset.refl _, fun _ listed => .inl listed⟩
  exact ⟨g, folded, sound, grows, labels, fun w listed => (all w listed).resolve_left (by simp)⟩

end Linking

/-- What the insertion of a function with a new identifier does. -/
structure Inserted (choices : Choices) (f : Function) (n : Nat) (g g' : CallGraph) : Prop where
  sound : Sound g'
  grows : Grows g g'
  unlabelled : g.vertexLabel n = none
  vertex : g'.vertexLabel n = some (.concrete f)
  added : ∀ v lb, g'.vertexLabel v = some lb → g.vertexLabel v = some lb ∨ (v = n ∧ lb = .concrete f) ∨
    ∃ a k, Targets f a ∧ lb = .todo a none (choices.fresh k) ∧
      (∀ w old, g.vertexLabel w = some old → ¬ Answers a old) ∧ ¬ Answers a (.concrete f)
  answered : ∀ a, Targets f a → ∃ w lb, g'.vertexLabel w = some lb ∧ Answers a lb ∧ g'.Adjacent n w

private theorem insert_spec {ε : Type} (choices : Choices) {program : Program} {f : Function} {start : UInt64}
    (sound : Sound program.callGraph) (starts : StartsAt f start)
    (new : ∀ v lb, program.callGraph.vertexLabel v = some lb → lb.uuid ≠ f.uuid) :
    ∃ program' todos n, (program.insert choices f : Outcome ε _) = .returns (program', todos) ∧
      Inserted choices f n program.callGraph program'.callGraph := by
  have absent : program.callGraph.findVertex choices.vertices (·.uuid == f.uuid) = none := by
    rw [findVertex_eq_none]
    intro v lb label
    simpa using new v lb label
  have placed : placeFunction choices program.callGraph f = program.callGraph.addVertex (.concrete f) := by
    simp only [placeFunction, absent]
  have concrete : ∀ f', CallTarget.concrete f = .concrete f' → ∃ a, StartsAt f' a := by
    intro f' same
    cases same
    exact ⟨start, starts⟩
  have grown := addVertex_grows sound (.concrete f)
  have here : (program.callGraph.addVertex (.concrete f)).1.vertexLabel program.callGraph.nextVertex = some (.concrete f) := by
    rw [vertexLabel_addVertex, if_pos rfl]
  obtain ⟨link, folded, linked⟩ := linkCalls_spec (ε := ε) choices (addVertex_sound sound concrete)
    (Option.isSome_of_eq_some here) (f.collectCalls choices.blocks)
  obtain ⟨g, folded', sound', grown', labels, all⟩ := linkFunctions_spec (ε := ε) linked.sound
    (Option.isSome_of_eq_some (linked.grows.labels _ _ here)) link.otherFuns linked.others
  refine ⟨⟨g⟩, link.todos, program.callGraph.nextVertex, ?_, sound', grown.trans (linked.grows.trans grown'),
    unlabelled_next sound, grown'.labels _ _ (linked.grows.labels _ _ here), ?_, ?_⟩
  · simp only [Program.insert, placed]
    rw [show (program.callGraph.addVertex (.concrete f)).2 = program.callGraph.nextVertex from rfl, folded]
    simp only [Outcome.returns_bind, folded', Outcome.pure_eq]
  · intro v lb label
    rw [labels] at label
    rcases linked.added v lb label with old | ⟨a, member, k, rfl, silent⟩
    · rw [vertexLabel_addVertex] at old
      split at old
      · next same => exact .inr (.inl ⟨same.symm, (Option.some.inj old).symm⟩)
      · exact .inl old
    · refine .inr (.inr ⟨a, k, mem_collectCalls.mp member, rfl, fun w old label => ?_, silent _ _ here⟩)
      exact silent w old (grown.labels w old label)
  · intro a targets
    obtain ⟨w, lb, label, answers, cause⟩ := linked.answered a (mem_collectCalls.mpr targets)
    refine ⟨w, lb, grown'.labels w lb label, answers, ?_⟩
    rcases cause with listed | edge
    · exact all w listed
    · exact grown'.adjacent edge

/-- The state after the insertions `done`. -/
structure Stage (done : List (Choices × Function)) (g : CallGraph) : Prop where
  sound : Sound g
  labels : ∀ v lb, g.vertexLabel v = some lb → (∃ call ∈ done, lb = .concrete call.2) ∨
    ∃ before call after a k, done = before ++ call :: after ∧ Targets call.2 a ∧ lb = .todo a none (call.1.fresh k) ∧
      ∀ other ∈ before ++ [call], ¬ Answers a (.concrete other.2)
  functions : ∀ call ∈ done, ∃ v, g.vertexLabel v = some (.concrete call.2)
  unique : ∀ v w f, g.vertexLabel v = some (.concrete f) → g.vertexLabel w = some (.concrete f) → v = w
  answered : ∀ before call after, done = before ++ call :: after → ∀ a, Targets call.2 a → ∃ n w lb,
    g.vertexLabel n = some (.concrete call.2) ∧ g.vertexLabel w = some lb ∧ Answers a lb ∧ g.Adjacent n w ∧
    ∀ f, lb = .concrete f → ∃ other ∈ before ++ [call], f = other.2

/-- Functions with distinct identifiers, none of which is made up, and distinct start addresses. -/
structure Distinct (calls : List (Choices × Function)) : Prop where
  started : ∀ call ∈ calls, ∃ a, StartsAt call.2 a
  uuids : calls.Pairwise fun first last => first.2.uuid ≠ last.2.uuid
  starts : calls.Pairwise fun first last => ∀ a, StartsAt first.2 a → ¬ StartsAt last.2 a
  fresh : ∀ call ∈ calls, ∀ k, ∀ other ∈ calls, call.1.fresh k ≠ other.2.uuid

theorem Stage.initial : Stage [] Program.empty.callGraph := by
  refine ⟨⟨.new, ?_, ?_⟩, ?_, by simp, ?_, by simp⟩
  all_goals simp [Program.empty, AdjacencyList.new, vertexLabel]

private theorem concat_split {α : Type} {done before after : List α} {call item : α}
    (split : done ++ [call] = before ++ item :: after) :
    (before = done ∧ item = call ∧ after = []) ∨ ∃ rest, after = rest ++ [call] ∧ done = before ++ item :: rest := by
  rcases List.eq_nil_or_concat after with rfl | ⟨rest, last, rfl⟩
  · obtain ⟨rfl, same⟩ := List.append_inj' split rfl
    cases same
    exact .inl ⟨rfl, rfl, rfl⟩
  · have split : done ++ [call] = (before ++ item :: rest) ++ [last] := by simpa using split
    obtain ⟨rfl, same⟩ := List.append_inj' split rfl
    cases same
    exact .inr ⟨rest, by simp, rfl⟩

theorem Stage.insert {done : List (Choices × Function)} {g g' : CallGraph} {call : Choices × Function} {n : Nat}
    (stage : Stage done g) (new : ∀ v, g.vertexLabel v ≠ some (.concrete call.2))
    (inserted : Inserted call.1 call.2 n g g') : Stage (done ++ [call]) g' := by
  refine ⟨inserted.sound, ?_, ?_, ?_, ?_⟩
  · intro v lb label
    rcases inserted.added v lb label with old | ⟨rfl, rfl⟩ | ⟨a, k, targets, rfl, silent, other⟩
    · rcases stage.labels v lb old with ⟨call', member, same⟩ | ⟨before, call', after, a, k, rfl, targets, same, silent⟩
      · exact .inl ⟨call', List.mem_append_left _ member, same⟩
      · exact .inr ⟨before, call', after ++ [call], a, k, by simp, targets, same, silent⟩
    · exact .inl ⟨call, by simp, rfl⟩
    · refine .inr ⟨done, call, [], a, k, by simp, targets, rfl, ?_⟩
      intro call' member
      rcases List.mem_append.mp member with old | here
      · obtain ⟨w, label⟩ := stage.functions call' old
        exact silent w _ label
      · rw [List.mem_singleton.mp here]
        exact other
  · intro call' member
    rcases List.mem_append.mp member with old | here
    · obtain ⟨v, label⟩ := stage.functions call' old
      exact ⟨v, inserted.grows.labels v _ label⟩
    · rw [List.mem_singleton.mp here]
      exact ⟨n, inserted.vertex⟩
  · have origin : ∀ v f, g'.vertexLabel v = some (.concrete f) →
        g.vertexLabel v = some (.concrete f) ∨ (v = n ∧ f = call.2) := by
      intro v f label
      rcases inserted.added v _ label with old | ⟨here, same⟩ | ⟨a, k, -, same, -⟩
      · exact .inl old
      · cases same
        exact .inr ⟨here, rfl⟩
      · cases same
    intro v w f first last
    rcases origin v f first with old | ⟨rfl, rfl⟩
    · rcases origin w f last with old' | ⟨rfl, rfl⟩
      · exact stage.unique v w f old old'
      · exact absurd old (new v)
    · rcases origin w _ last with old' | ⟨rfl, -⟩
      · exact absurd old' (new w)
      · rfl
  · intro before call' after split a targets
    rcases concat_split split with ⟨rfl, rfl, rfl⟩ | ⟨rest, rfl, rfl⟩
    · obtain ⟨w, lb, label, answers, edge⟩ := inserted.answered a targets
      refine ⟨n, w, lb, inserted.vertex, label, answers, edge, ?_⟩
      intro f same
      subst lb
      rcases inserted.added w _ label with old | ⟨-, same⟩ | ⟨b, k, -, same, -⟩
      · rcases stage.labels w _ old with ⟨other, member, same⟩ | ⟨_, _, _, _, _, _, _, same, _⟩
        · cases same
          exact ⟨other, List.mem_append_left _ member, rfl⟩
        · cases same
      · cases same
        exact ⟨call', by simp, rfl⟩
      · cases same
    · obtain ⟨m, w, lb, first, label, answers, edge, origin⟩ := stage.answered before call' rest rfl a targets
      exact ⟨m, w, lb, inserted.grows.labels _ _ first, inserted.grows.labels _ _ label, answers,
        inserted.grows.adjacent edge, origin⟩

private theorem insertAll_stage {ε : Type} {calls : List (Choices × Function)} (distinct : Distinct calls) :
    ∃ program, (Program.empty.insertAll calls : Outcome ε _) = .returns program ∧ Stage calls program.callGraph := by
  obtain ⟨program, folded, done, split, stage⟩ := Outcome.fold_returns
    (f := fun program call => (do return (← Program.insert call.1 program call.2).1 : Outcome ε Program))
    (fun rest program => ∃ done, done ++ rest = calls ∧ Stage done program.callGraph)
    (fun call rest program holds => by
      obtain ⟨done, split, stage⟩ := holds
      have member : call ∈ calls := by simp [← split]
      obtain ⟨start, starts⟩ := distinct.started call member
      have apart : ∀ other ∈ done, other.2.uuid ≠ call.2.uuid := by
        intro other inside
        have pairs := distinct.uuids
        rw [← split] at pairs
        exact (List.pairwise_append.mp pairs).2.2 other inside call List.mem_cons_self
      have new : ∀ v lb, program.callGraph.vertexLabel v = some lb → lb.uuid ≠ call.2.uuid := by
        intro v lb label
        rcases stage.labels v lb label with ⟨other, inside, rfl⟩ | ⟨before, other, after, a, k, rfl, -, rfl, -⟩
        · exact apart other inside
        · exact distinct.fresh other (by simp [← split]) k call member
      obtain ⟨program', todos, n, returned, inserted⟩ := insert_spec (ε := ε) call.1 stage.sound starts new
      refine ⟨program', by simp only [returned, Outcome.returns_bind, Outcome.pure_eq], done ++ [call], by simp [← split], ?_⟩
      exact stage.insert (fun v label => new v _ label rfl) inserted)
    calls Program.empty ⟨[], rfl, .initial⟩
  rw [List.append_nil] at split
  exact ⟨program, folded, split ▸ stage⟩

/-- Every function has one vertex, every call of a constant start address one edge, and no placeholder remains
for the start address of a function. -/
structure Reconciled (functions : List Function) (g : CallGraph) : Prop where
  vertices : ∀ f ∈ functions, ∃! v, g.vertexLabel v = some (.concrete f)
  edges : ∀ f ∈ functions, ∀ callee ∈ functions, ∀ a, StartsAt callee a → Calls f a → ∀ u v,
    g.vertexLabel u = some (.concrete f) → g.vertexLabel v = some (.concrete callee) → ∃! e : Nat, g.edges[e]? = some (u, v)
  resolved : ∀ v f a, g.vertexLabel v = some (.concrete f) → StartsAt f a →
    ∀ w size name uuid, g.vertexLabel w ≠ some (.todo (.constant a size) name uuid)

private theorem pairwise_iff_split {α : Type} {R : α → α → Prop} {items : List α} :
    items.Pairwise R ↔ ∀ before item after, items = before ++ item :: after → ∀ later ∈ after, R item later := by
  constructor
  · intro pairs before item after split later member
    rw [split] at pairs
    exact (List.pairwise_cons.mp (List.pairwise_append.mp pairs).2.1).1 later member
  · intro splits
    induction items with
    | nil => exact .nil
    | cons item items ih =>
      refine .cons (splits [] item items rfl) (ih fun before other after split => ?_)
      exact splits (item :: before) other after (by simp [split])

/-- The functions of an insertion sequence are told apart by their start addresses. -/
theorem Distinct.same {calls : List (Choices × Function)} (distinct : Distinct calls) {first last : Choices × Function} {a : UInt64}
    (member : first ∈ calls) (member' : last ∈ calls) (starts : StartsAt first.2 a) (starts' : StartsAt last.2 a) :
    first = last := by
  by_contra other
  have symmetric : Std.Symm fun first last : Choices × Function => ∀ a, StartsAt first.2 a → ¬ StartsAt last.2 a :=
    ⟨fun _ _ apart b there here => apart b here there⟩
  exact distinct.starts.forall member member' other a starts starts'

/-- A placeholder for the start address of a function was left by a caller that came before it. -/
theorem Stage.todo {calls : List (Choices × Function)} {g : CallGraph} (stage : Stage calls g) {w size : Nat} {a : UInt64}
    {name : Option String} {uuid : Uuid} (label : g.vertexLabel w = some (.todo (.constant a size) name uuid))
    {callee : Choices × Function} (member : callee ∈ calls) (starts : StartsAt callee.2 a) :
    ∃ before call after, calls = before ++ call :: after ∧ callee ∈ after ∧ Calls call.2 a := by
  rcases stage.labels w _ label with ⟨call, -, same⟩ | ⟨before, call, after, b, k, rfl, targets, same, silent⟩
  · cases same
  · cases same
    refine ⟨before, call, after, rfl, ?_, size, targets⟩
    have answers : Answers (.constant a size) (.concrete callee.2) := ⟨a, size, rfl, starts⟩
    have late : callee ∉ before ++ [call] := fun early => silent callee early answers
    simp only [List.mem_append, List.mem_cons, List.not_mem_nil, or_false, not_or] at member late
    exact (member.resolve_left late.1).resolve_left late.2

/-- The call graph is complete exactly when every function is inserted after those it calls. -/
theorem insertAll_reconciled_iff {ε : Type} {calls : List (Choices × Function)} (distinct : Distinct calls) :
    ∃ program, (Program.empty.insertAll calls : Outcome ε Program) = .returns program ∧
      (Reconciled (calls.map Prod.snd) program.callGraph ↔
        calls.Pairwise fun first last => ∀ a, StartsAt last.2 a → ¬ Calls first.2 a) := by
  obtain ⟨program, returned, stage⟩ := insertAll_stage (ε := ε) distinct
  refine ⟨program, returned, ?_⟩
  rw [pairwise_iff_split]
  constructor
  · intro reconciled before call after split later member a starts holds
    obtain ⟨size, targets⟩ := holds
    obtain ⟨n, w, lb, -, label, answers, -, origin⟩ := stage.answered before call after split _ targets
    have inside : later ∈ calls := by simp [split, member]
    cases lb with
    | concrete f =>
      obtain ⟨value, size', same, starts'⟩ := answers
      cases same
      obtain ⟨other, early, rfl⟩ := origin f rfl
      have pairs := distinct.starts
      rw [show calls = (before ++ [call]) ++ after by simp [split]] at pairs
      exact (List.pairwise_append.mp pairs).2.2 other early later member a starts' starts
    | todo target name uuid =>
      obtain rfl : target = .constant a size := answers
      obtain ⟨v, here⟩ := stage.functions later inside
      exact reconciled.resolved v later.2 a here starts w size name uuid label
    | symbolic => exact answers
  · intro ordered
    have resolved : ∀ callee ∈ calls, ∀ a, StartsAt callee.2 a → ∀ w size name uuid,
        program.callGraph.vertexLabel w ≠ some (.todo (.constant a size) name uuid) := by
      intro callee member a starts w size name uuid label
      obtain ⟨before, call, after, split, late, targets⟩ := stage.todo label member starts
      exact ordered before call after split callee late a starts targets
    refine ⟨?_, ?_, ?_⟩
    · intro f member
      obtain ⟨call, inside, rfl⟩ := List.mem_map.mp member
      obtain ⟨v, label⟩ := stage.functions call inside
      exact ⟨v, label, fun w label' => stage.unique w v _ label' label⟩
    · intro f member callee member' a starts holds u v first last
      obtain ⟨size, targets⟩ := holds
      obtain ⟨call, inside, rfl⟩ := List.mem_map.mp member
      obtain ⟨callee, inside', rfl⟩ := List.mem_map.mp member'
      obtain ⟨before, after, split⟩ := List.append_of_mem inside
      obtain ⟨n, w, lb, here, label, answers, ⟨e, stored⟩, origin⟩ := stage.answered before call after split _ targets
      have target : w = v := by
        cases lb with
        | concrete f' =>
          obtain ⟨value, size', same, starts'⟩ := answers
          cases same
          obtain ⟨other, early, rfl⟩ := origin f' rfl
          have known : other ∈ calls := by
            rw [show calls = (before ++ [call]) ++ after by simp [split]]
            exact List.mem_append_left _ early
          rw [distinct.same known inside' starts' starts] at label
          exact stage.unique w v _ label last
        | todo target name uuid =>
          obtain rfl : target = .constant a size := answers
          exact absurd label (resolved callee inside' a starts w size name uuid)
        | symbolic => exact answers.elim
      rw [stage.unique n u _ here first, target] at stored
      exact ⟨e, stored, fun e' stored' => stage.sound.simple e' e _ stored' stored⟩
    · intro v f a label starts
      rcases stage.labels v _ label with ⟨call, inside, same⟩ | ⟨_, _, _, _, _, _, _, same, _⟩
      · cases same
        exact resolved call inside a starts
      · cases same

/-- A function that starts at `a` and makes the calls given. -/
def caller (uuid : Uuid) (a : UInt64) (targets : List Rvalue) : Function where
  name := "f"
  aliases := []
  uuid := uuid
  cflowGraph := .ofLists [.resolved (.fromVec [⟨⟨a, a + 1⟩, "call", [], targets.map fun t => ⟨.undefined, .call t⟩, []⟩])] []
  entryPoint := 0
  region := "ram"
  size := 0
  kind := .regular

def even : Choices := ⟨.canonical, .canonical, fun _ => .canonical, fun k => BitVec.ofNat 128 (2 * k)⟩

/-- A caller of address 8 and then the function that starts there. -/
def callerFirst : List (Choices × Function) := [(even, caller 1 0 [.constant 8 64]), (even, caller 3 8 [])]

theorem callerFirst_distinct : Distinct callerFirst := by
  have starts : StartsAt (caller 1 0 [.constant 8 64]) 0 ∧ StartsAt (caller 3 8 []) 8 := by
    unfold StartsAt
    decide
  have odd : ∀ k, BitVec.ofNat 128 (2 * k) ≠ (1 : Uuid) ∧ BitVec.ofNat 128 (2 * k) ≠ (3 : Uuid) := by
    intro k
    constructor
    · intro same
      have value : 2 * k % 2 ^ 128 = 1 := congrArg BitVec.toNat same
      omega
    · intro same
      have value : 2 * k % 2 ^ 128 = 3 := congrArg BitVec.toNat same
      omega
  refine ⟨?_, ?_, ?_, ?_⟩
  · simp only [callerFirst, List.forall_mem_cons]
    exact ⟨⟨0, starts.1⟩, ⟨8, starts.2⟩, by simp⟩
  · simp only [callerFirst, List.pairwise_cons, List.forall_mem_cons]
    exact ⟨⟨by decide, by simp⟩, by simp⟩
  · simp only [callerFirst, List.pairwise_cons, List.forall_mem_cons]
    refine ⟨⟨?_, by simp⟩, by simp⟩
    intro a first last
    rw [first.unique starts.1] at last
    exact absurd (last.unique starts.2) (by decide)
  · simp only [callerFirst, List.forall_mem_cons]
    exact ⟨fun k => ⟨(odd k).1, (odd k).2, by simp⟩, fun k => ⟨(odd k).1, (odd k).2, by simp⟩, by simp⟩

/-- The first vertices are a placeholder for address 8 and a function that starts there. -/
def besides (program : Program) : Bool :=
  match program.callGraph.vertexLabel 1, program.callGraph.vertexLabel 2 with
  | some (.todo target _ _), some (.concrete f) => target == .constant 8 64 && (f.start : Outcome Empty UInt64) == .returns 8
  | _, _ => false

/-- The placeholder stays beside the function. -/
theorem callerFirst_not_reconciled : Distinct callerFirst ∧
    ¬ ∃ program, (Program.empty.insertAll callerFirst : Outcome Empty Program) = .returns program ∧
      Reconciled (callerFirst.map Prod.snd) program.callGraph := by
  refine ⟨callerFirst_distinct, ?_⟩
  intro holds
  obtain ⟨program, returned, reconciled⟩ := holds
  have left : ((Program.empty.insertAll callerFirst : Outcome Empty Program).value?.any besides) = true := by decide
  rw [returned] at left
  simp only [Outcome.value?, Option.any_some, besides] at left
  split at left
  · next target name uuid f todo concrete =>
    simp only [Bool.and_eq_true, beq_iff_eq] at left
    exact reconciled.resolved 2 f 8 concrete left.2 1 64 name uuid (left.1 ▸ todo)
  · cases left

theorem Distinct.reverse {calls : List (Choices × Function)} (distinct : Distinct calls) : Distinct calls.reverse where
  started := by simpa using distinct.started
  uuids := List.pairwise_reverse.mpr (distinct.uuids.imp Ne.symm)
  starts := List.pairwise_reverse.mpr (distinct.starts.imp fun apart a there here => apart a here there)
  fresh := by simpa using distinct.fresh

/-- With the caller first the placeholder stays, with the callee first nothing is left over. -/
theorem callerFirst_reconciled_iff : (∃ program,
    (Program.empty.insertAll callerFirst : Outcome Empty Program) = .returns program ∧
      (Reconciled (callerFirst.map Prod.snd) program.callGraph ↔
        callerFirst.Pairwise fun first last => ∀ a, StartsAt last.2 a → ¬ Calls first.2 a)) ∧
    ∃ program, (Program.empty.insertAll callerFirst.reverse : Outcome Empty Program) = .returns program ∧
      Reconciled (callerFirst.reverse.map Prod.snd) program.callGraph := by
  refine ⟨insertAll_reconciled_iff callerFirst_distinct, ?_⟩
  obtain ⟨program, returned, reconciled⟩ := insertAll_reconciled_iff (ε := Empty) callerFirst_distinct.reverse
  refine ⟨program, returned, reconciled.mpr ?_⟩
  have silent : ∀ a, ¬ Calls (caller 3 8 []) a := by
    intro a calls
    obtain ⟨size, targets⟩ := calls
    have none : (caller 3 8 []).collectCalls .canonical = [] := by decide
    rw [← @mem_collectCalls _ .canonical, none] at targets
    cases targets
  have ordered : ∀ a, StartsAt (caller 1 0 [.constant 8 64]) a → ¬ Calls (caller 3 8 []) a := fun a _ => silent a
  simpa [callerFirst] using ordered

end Panopticon.Proofs.Insertion
