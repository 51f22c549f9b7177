import Panopticon.Proofs.Discovery

/-! What the sequential driver sends. -/

namespace Panopticon.Proofs.Pipeline
open Library AdjacencyList Proofs.Insertion Proofs.Conversion Proofs.Discovery
open Proofs.Worklist (mem_insert)

variable {Region : Type} {setup : Setup Region} {draws : Nat → Draw} {program : Program}

theorem handle_cases (setup : Setup Region) (draws : Nat → Draw) (pipe : Pipeline) (request : Request) :
    (∃ e, request.disassemble setup (draws pipe.turn) = some (.error e) ∧
      pipe.handle setup draws request =
        { pipe with finishedFunctions := pipe.finishedFunctions.insert request.entry, turn := pipe.turn + 1 }) ∨
    (∃ f f', request.disassemble setup (draws pipe.turn) = some (.ok f) ∧ convert (draws pipe.turn) f = .returns f' ∧
      pipe.handle setup draws request =
        { pipe with
          finishedFunctions := pipe.finishedFunctions.insert request.entry
          targets := pipe.targets ++ f.collectCallAddresses (draws pipe.turn).blocks
          sent := pipe.sent ++ [f']
          turn := pipe.turn + 1 }) ∨
    ((pipe.handle setup draws request).alive = false ∧ (pipe.handle setup draws request).sent = pipe.sent ∧
      (pipe.handle setup draws request).finishedFunctions = pipe.finishedFunctions.insert request.entry) := by
  cases done : request.disassemble setup (draws pipe.turn) with
  | none => exact .inr (.inr (by simp [Pipeline.handle, done]))
  | some result =>
    cases result with
    | error e => exact .inl ⟨e, rfl, by simp [Pipeline.handle, done]⟩
    | ok f =>
      cases converted : convert (draws pipe.turn) f with
      | returns f' => exact .inr (.inl ⟨f, f', rfl, converted, by simp [Pipeline.handle, done, converted]⟩)
      | fails e => cases e
      | panics => exact .inr (.inr (by simp [Pipeline.handle, done, converted]))
      | exhausted => exact .inr (.inr (by simp [Pipeline.handle, done, converted]))

/-- Bookkeeping of a living thread that still has the `pending` requests of the current loop before it. -/
structure Tracks (setup : Setup Region) (program : Program) (pending : List UInt64) (pipe : Pipeline) : Prop where
  finished : ∀ a, a ∈ pipe.finishedFunctions → Discovered setup program a
  ahead : ∀ a ∈ pending, Discovered setup program a
  targets : ∀ a ∈ pipe.targets, Discovered setup program a
  seeds : ∀ a, Seed program a → a ∈ pipe.finishedFunctions ∨ a ∈ pending
  closed : ∀ a c, a ∈ pipe.finishedFunctions → Leads setup a c →
    c ∈ pipe.finishedFunctions ∨ c ∈ pipe.targets ∨ c ∈ pending
  sent : ∀ a, a ∈ starts pipe.sent ↔ a ∈ pipe.finishedFunctions ∧ ∃ f, Recovers setup a f

theorem Tracks.handle (deterministic : Deterministic setup) {request : Request} {pending : List UInt64} {pipe : Pipeline}
    (tracks : Tracks setup program (request.entry :: pending) pipe) (alive : (pipe.handle setup draws request).alive = true) :
    Tracks setup program pending (pipe.handle setup draws request) := by
  have here : Discovered setup program request.entry := tracks.ahead _ List.mem_cons_self
  have later : ∀ a ∈ pending, Discovered setup program a := fun a member => tracks.ahead a (List.mem_cons_of_mem _ member)
  have finished : ∀ a, a ∈ pipe.finishedFunctions.insert request.entry → Discovered setup program a := by
    intro a member
    rcases (mem_insert _ _ _).mp member with rfl | old
    · exact here
    · exact tracks.finished a old
  have seeds : ∀ a, Seed program a → a ∈ pipe.finishedFunctions.insert request.entry ∨ a ∈ pending := by
    intro a seed
    simp only [mem_insert]
    have old := tracks.seeds a seed
    simp only [List.mem_cons] at old
    tauto
  obtain ⟨e, done, same⟩ | ⟨f, f', done, converted, same⟩ | ⟨dead, -, -⟩ := handle_cases setup draws pipe request
  · rw [same]
    refine ⟨finished, later, tracks.targets, seeds, ?_, ?_⟩
    · intro a c member leads
      simp only [mem_insert] at member ⊢
      rcases member with rfl | member
      · obtain ⟨f, recovers, -⟩ := leads
        exact absurd recovers (not_recovers deterministic done f)
      · have old := tracks.closed a c member leads
        simp only [List.mem_cons] at old
        tauto
    · intro a
      rw [tracks.sent, mem_insert]
      constructor
      · intro holds
        obtain ⟨member, recovers⟩ := holds
        exact ⟨.inr member, recovers⟩
      · intro holds
        obtain ⟨member, f, recovers⟩ := holds
        refine ⟨member.resolve_left ?_, f, recovers⟩
        intro same
        subst same
        exact not_recovers deterministic done f recovers
  · rw [same]
    have calls (c : UInt64) : c ∈ f.collectCallAddresses (draws pipe.turn).blocks ↔ Leads setup request.entry c :=
      mem_collectCallAddresses.trans (leads_iff deterministic done c).symm
    refine ⟨finished, later, ?_, seeds, ?_, ?_⟩
    · intro a member
      rcases List.mem_append.mp member with old | new
      · exact tracks.targets a old
      · exact here.next ((calls a).mp new)
    · intro a c member leads
      simp only [mem_insert, List.mem_append] at member ⊢
      rcases member with rfl | member
      · exact .inr (.inl (.inr ((calls c).mpr leads)))
      · have old := tracks.closed a c member leads
        simp only [List.mem_cons] at old
        tauto
    · intro a
      have start := (convert_startsAt converted request.entry).mpr (disassemble_startsAt done)
      simp only [starts_concat start, List.mem_append, List.mem_singleton, tracks.sent, mem_insert]
      constructor
      · intro member
        rcases member with ⟨old, recovers⟩ | rfl
        · exact ⟨.inr old, recovers⟩
        · exact ⟨.inl rfl, f, request, draws pipe.turn, rfl, done⟩
      · intro holds
        obtain ⟨member, recovers⟩ := holds
        rcases member with rfl | old
        · exact .inr rfl
        · exact .inl ⟨old, recovers⟩
  · rw [dead] at alive
    cases alive

private theorem alive_of_handle {pipe : Pipeline} {request : Request} (alive : (pipe.handle setup draws request).alive = true) :
    pipe.alive = true := by
  obtain ⟨e, -, same⟩ | ⟨f, f', -, -, same⟩ | ⟨dead, -, -⟩ := handle_cases setup draws pipe request
  · simpa [same] using alive
  · simpa [same] using alive
  · rw [dead] at alive
    cases alive

private theorem first_tracks (deterministic : Deterministic setup) {pipe : Pipeline} (inits : List Init)
    (tracks : pipe.alive = true → Tracks setup program (inits.map Init.entry) pipe)
    (alive : (inits.foldl (Pipeline.first setup draws) pipe).alive = true) :
    Tracks setup program [] (inits.foldl (Pipeline.first setup draws) pipe) := by
  induction inits generalizing pipe with
  | nil => exact tracks alive
  | cons init inits ih =>
    refine ih (fun living => ?_) alive
    unfold Pipeline.first at living ⊢
    split
    · next before =>
      simp only [before, if_true] at living
      exact (tracks before).handle deterministic living
    · next before => simp [before] at living

private theorem follow_tracks (deterministic : Deterministic setup) {pipe : Pipeline} (addresses : List UInt64)
    (tracks : pipe.alive = true → Tracks setup program addresses pipe)
    (alive : (addresses.foldl (Pipeline.follow setup draws) pipe).alive = true) :
    Tracks setup program [] (addresses.foldl (Pipeline.follow setup draws) pipe) := by
  induction addresses generalizing pipe with
  | nil => exact tracks alive
  | cons address addresses ih =>
    refine ih (fun living => ?_) alive
    unfold Pipeline.follow at living ⊢
    split
    · next fresh =>
      simp only [fresh, if_true] at living
      have before : Tracks setup program ((Request.call address).entry :: addresses) pipe := tracks (alive_of_handle living)
      exact before.handle deterministic living
    · next known =>
      rw [if_neg known] at living
      have before := tracks living
      have member : address ∈ pipe.finishedFunctions := by simpa [living] using known
      refine ⟨before.finished, fun a member => before.ahead a (List.mem_cons_of_mem _ member), before.targets, ?_, ?_, before.sent⟩
      · intro a seed
        rcases before.seeds a seed with old | waiting
        · exact .inl old
        · rcases List.mem_cons.mp waiting with rfl | waiting
          · exact .inl member
          · exact .inr waiting
      · intro a c finished leads
        rcases before.closed a c finished leads with old | target | waiting
        · exact .inl old
        · exact .inr (.inl target)
        · rcases List.mem_cons.mp waiting with rfl | waiting
          · exact .inl member
          · exact .inr (.inr waiting)

private theorem drain_tracks (deterministic : Deterministic setup) (rounds : Nat) {pipe : Pipeline}
    (tracks : pipe.alive = true → Tracks setup program [] pipe) (alive : (pipe.drain setup draws rounds).alive = true) :
    Tracks setup program [] (pipe.drain setup draws rounds) := by
  induction rounds generalizing pipe with
  | zero => exact tracks alive
  | succ rounds ih =>
    unfold Pipeline.drain at alive ⊢
    split
    · next more =>
      rw [if_pos more] at alive
      refine ih (fun living => follow_tracks deterministic _ (fun before => ?_) living) alive
      have old := tracks before
      exact ⟨old.finished, old.targets, by simp, fun a seed => .inl ((old.seeds a seed).resolve_right (by simp)),
        fun a c finished leads => by simpa using old.closed a c finished leads, old.sent⟩
    · next done =>
      rw [if_neg done] at alive
      exact tracks alive

/-- A thread that comes to its end has sent a function for every discovered address at which one is found. -/
theorem pipeline_sends (deterministic : Deterministic setup) {vertices : Enumeration Nat} {rounds : Nat}
    (ended : (pipeline setup draws vertices rounds program).Ended) (a : UInt64) :
    a ∈ starts (pipeline setup draws vertices rounds program).sent ↔ Discovered setup program a ∧ ∃ f, Recovers setup a f := by
  have begin : Tracks setup program ((program.inits vertices).map Init.entry) ⟨∅, [], [], 0, true⟩ := by
    refine ⟨by simp, ?_, by simp, ?_, by simp, by simp [starts]⟩
    · intro b member
      obtain ⟨init, listed, entry⟩ := List.mem_map.mp member
      exact ((seed_iff vertices).mpr ⟨init, listed, entry⟩).discovered
    · intro b seed
      obtain ⟨init, listed, entry⟩ := (seed_iff vertices).mp seed
      exact .inr (List.mem_map.mpr ⟨init, listed, entry⟩)
  have tracks : Tracks setup program [] (pipeline setup draws vertices rounds program) :=
    drain_tracks deterministic rounds (fun living => first_tracks deterministic _ (fun _ => begin) living) ended.1
  have all : ∀ b, Discovered setup program b → b ∈ (pipeline setup draws vertices rounds program).finishedFunctions := by
    intro b discovered
    refine discovered.induction (fun seed initial => (tracks.seeds seed initial).resolve_right (by simp)) ?_
    intro b c finished leads
    simpa [ended.2] using tracks.closed b c finished leads
  rw [tracks.sent]
  exact and_congr_left' ⟨tracks.finished a, all a⟩

/-- The thread can turn this placeholder into a function and send it. -/
def Yields (setup : Setup Region) (init : Init) : Prop :=
  ∃ draw f f', (Request.todo init).disassemble setup draw = some (.ok f) ∧ convert draw f = .returns f'

/-- No two placeholders for one address can both be turned into a function. -/
def Distinct (setup : Setup Region) (program : Program) : Prop :=
  ∀ v w lb lb' init init', v ≠ w → program.callGraph.vertexLabel v = some lb → program.callGraph.vertexLabel w = some lb' →
    lb.init? = some init → lb'.init? = some init' → init.entry = init'.entry → ¬ (Yields setup init ∧ Yields setup init')

/-- Nothing is sent twice, and what is sent is recorded. -/
structure Once (pipe : Pipeline) : Prop where
  nodup : (starts pipe.sent).Nodup
  recorded : ∀ a ∈ starts pipe.sent, a ∈ pipe.finishedFunctions

theorem handle_sent (setup : Setup Region) (draws : Nat → Draw) (pipe : Pipeline) (request : Request) :
    (pipe.handle setup draws request).finishedFunctions = pipe.finishedFunctions.insert request.entry ∧
    ((pipe.handle setup draws request).sent = pipe.sent ∨
      ∃ f f', request.disassemble setup (draws pipe.turn) = some (.ok f) ∧ convert (draws pipe.turn) f = .returns f' ∧
        StartsAt f' request.entry ∧ (pipe.handle setup draws request).sent = pipe.sent ++ [f']) := by
  obtain ⟨e, -, same⟩ | ⟨f, f', done, converted, same⟩ | ⟨-, kept, finished⟩ := handle_cases setup draws pipe request
  · exact ⟨by rw [same], .inl (by rw [same])⟩
  · refine ⟨by rw [same], .inr ⟨f, f', done, converted, ?_, by rw [same]⟩⟩
    exact (convert_startsAt converted request.entry).mpr (disassemble_startsAt done)
  · exact ⟨finished, .inl kept⟩

theorem Once.handle {pipe : Pipeline} {request : Request} (once : Once pipe)
    (new : ∀ f f', request.disassemble setup (draws pipe.turn) = some (.ok f) → convert (draws pipe.turn) f = .returns f' →
      request.entry ∉ starts pipe.sent) : Once (pipe.handle setup draws request) := by
  obtain ⟨finished, kept | ⟨f, f', done, converted, start, sent⟩⟩ := handle_sent setup draws pipe request
  · refine ⟨by rw [kept]; exact once.nodup, fun a member => ?_⟩
    rw [kept] at member
    rw [finished]
    exact (mem_insert _ _ _).mpr (.inr (once.recorded a member))
  · have fresh := new f f' done converted
    refine ⟨?_, fun a member => ?_⟩
    · rw [sent, starts_concat start, ← List.concat_eq_append]
      exact once.nodup.concat fresh
    · rw [sent, starts_concat start] at member
      rw [finished, mem_insert]
      rcases List.mem_append.mp member with old | here
      · exact .inr (once.recorded a old)
      · exact .inl (List.mem_singleton.mp here)

private theorem drain_once (rounds : Nat) {pipe : Pipeline} (once : Once pipe) : Once (pipe.drain setup draws rounds) := by
  induction rounds generalizing pipe with
  | zero => exact once
  | succ rounds ih =>
    unfold Pipeline.drain
    split
    · refine ih ?_
      have start : Once { pipe with targets := [] } := ⟨once.nodup, once.recorded⟩
      refine List.foldlRecOn pipe.targets (Pipeline.follow setup draws) start ?_
      intro pipe once address _
      unfold Pipeline.follow
      split
      · next fresh =>
        refine once.handle fun _ _ _ _ sent => ?_
        have known : address ∈ pipe.finishedFunctions := once.recorded _ sent
        simp [Std.ExtTreeSet.contains_iff_mem.mpr known] at fresh
      · exact once
    · exact once

/-- The loop over the placeholders sends each address once when they are distinct. -/
theorem first_once (inits done : List Init) {pipe : Pipeline}
    (distinct : (done ++ inits).Pairwise fun init init' =>
      init.entry = init'.entry → ¬ (Yields setup init ∧ Yields setup init'))
    (once : Once pipe) (origin : ∀ a ∈ starts pipe.sent, ∃ init ∈ done, init.entry = a ∧ Yields setup init) :
    Once (inits.foldl (Pipeline.first setup draws) pipe) := by
  induction inits generalizing done pipe with
  | nil => exact once
  | cons init inits ih =>
    have separate : ∀ other ∈ done, other.entry = init.entry → ¬ (Yields setup other ∧ Yields setup init) :=
      fun other member => (List.pairwise_append.mp distinct).2.2 other member init List.mem_cons_self
    rw [List.append_cons] at distinct
    simp only [List.foldl_cons, Pipeline.first]
    split
    · refine ih (done ++ [init]) distinct (once.handle fun f f' found converted sent => ?_) ?_
      · obtain ⟨other, member, same, yields⟩ := origin _ sent
        exact separate other member same ⟨yields, draws pipe.turn, f, f', found, converted⟩
      · intro a member
        obtain ⟨-, kept | ⟨f, f', found, converted, start, sent⟩⟩ := handle_sent setup draws pipe (.todo init)
        · rw [kept] at member
          obtain ⟨other, member, rest⟩ := origin a member
          exact ⟨other, List.mem_append_left _ member, rest⟩
        · rw [sent, starts_concat start] at member
          rcases List.mem_append.mp member with old | here
          · obtain ⟨other, member, rest⟩ := origin a old
            exact ⟨other, List.mem_append_left _ member, rest⟩
          · refine ⟨init, by simp, (List.mem_singleton.mp here).symm, draws pipe.turn, f, f', found, converted⟩
    · refine ih (done ++ [init]) distinct once fun a member => ?_
      obtain ⟨other, member, rest⟩ := origin a member
      exact ⟨other, List.mem_append_left _ member, rest⟩

private theorem inits_pairwise (distinct : Distinct setup program) (vertices : Enumeration Nat) :
    (program.inits vertices).Pairwise fun init init' =>
      init.entry = init'.entry → ¬ (Yields setup init ∧ Yields setup init') := by
  have nodup : (program.callGraph.vertices vertices).Nodup :=
    (vertices.perm _).nodup_iff.mpr Std.ExtTreeMap.nodup_keys
  unfold Program.inits
  rw [List.pairwise_filterMap, List.pairwise_filterMap]
  refine nodup.imp fun apart lb label lb' label' init found init' found' => ?_
  exact distinct _ _ lb lb' init init' apart label label' found found'

theorem pipeline_once (distinct : Distinct setup program) (draws : Nat → Draw) (vertices : Enumeration Nat) (rounds : Nat) :
    (starts (pipeline setup draws vertices rounds program).sent).Nodup := by
  refine (drain_once rounds (first_once _ [] ?_ ⟨by simp [starts], by simp [starts]⟩ (by simp [starts]))).nodup
  exact inits_pairwise distinct vertices

private theorem first_prefix (setup : Setup Region) (draws : Nat → Draw) (inits : List Init) (pipe : Pipeline) :
    pipe.sent <+: (inits.foldl (Pipeline.first setup draws) pipe).sent := by
  induction inits generalizing pipe with
  | nil => exact List.prefix_refl _
  | cons init inits ih =>
    refine List.IsPrefix.trans ?_ (ih _)
    unfold Pipeline.first
    split
    · obtain ⟨-, kept | ⟨f, f', -, -, -, sent⟩⟩ := handle_sent setup draws pipe (.todo init)
      · rw [kept]
      · rw [sent]
        exact List.prefix_append _ _
    · exact List.prefix_refl _

/-- Two placeholders for one address, taken one after the other, give two functions. -/
theorem first_twice {init init' : Init} (same : init.entry = init'.entry) {draw draw' : Draw} {f f' g g' : Function}
    (found : (Request.todo init).disassemble setup draw = some (.ok f)) (converted : convert draw f = .returns f')
    (found' : (Request.todo init').disassemble setup draw' = some (.ok g)) (converted' : convert draw' g = .returns g')
    (rest : List Init) :
    ¬ (starts ((init :: init' :: rest).foldl (Pipeline.first setup fun n => if n = 0 then draw else draw')
      ⟨∅, [], [], 0, true⟩).sent).Nodup := by
  have start := (convert_startsAt converted init.entry).mpr (disassemble_startsAt found)
  have start' := (convert_startsAt converted' init.entry).mpr (same ▸ disassemble_startsAt found')
  obtain ⟨later, sent⟩ := first_prefix setup (fun n => if n = 0 then draw else draw') rest
    ([init, init'].foldl (Pipeline.first setup fun n => if n = 0 then draw else draw') ⟨∅, [], [], 0, true⟩)
  have both : ([init, init'].foldl (Pipeline.first setup fun n => if n = 0 then draw else draw')
      ⟨∅, [], [], 0, true⟩).sent = [f', g'] := by
    simp [Pipeline.first, Pipeline.handle, found, converted, found', converted']
  rw [both] at sent
  have split : init :: init' :: rest = [init, init'] ++ rest := rfl
  rw [split, List.foldl_append, ← sent]
  have pair : starts ([f', g'] ++ later) = init.entry :: init.entry :: starts later := by
    unfold StartsAt at start start'
    simp [starts, start, start', Outcome.value?]
  rw [pair]
  simp

/-- Where two placeholders for one address both yield a function, some order of the vertices sends both. -/
theorem sends_twice (repeated : ¬ Distinct setup program) :
    ∃ draws vertices, ¬ (starts (pipeline setup draws vertices 0 program).sent).Nodup := by
  simp only [Distinct, not_forall, not_not] at repeated
  obtain ⟨v, w, lb, lb', init, init', apart, label, label', found, found', same, yields, yields'⟩ := repeated
  obtain ⟨draw, f, f', done, converted⟩ := yields
  obtain ⟨draw', g, g', done', converted'⟩ := yields'
  refine ⟨fun n => if n = 0 then draw else draw', .startingWith v w, ?_⟩
  have inside : v ∈ program.callGraph.vertexLabels.keys :=
    (mem_vertices program.callGraph .canonical v).mpr (by simp [label])
  have inside' : w ∈ program.callGraph.vertexLabels.keys :=
    (mem_vertices program.callGraph .canonical w).mpr (by simp [label'])
  have listed : ∃ rest, program.inits (.startingWith v w) = init :: init' :: rest := by
    simp only [Program.inits, vertices, Enumeration.startingWith]
    rw [if_pos ⟨inside, (List.mem_erase_of_ne (Ne.symm apart)).mpr inside'⟩]
    simp only [List.filterMap_cons, label, label', found, found']
    exact ⟨_, rfl⟩
  obtain ⟨rest, listed⟩ := listed
  unfold pipeline Pipeline.drain
  rw [listed]
  exact first_twice same done converted done' converted' rest

end Panopticon.Proofs.Pipeline
