import Panopticon.Proofs.Waves

/-! The parallel driver never waits for ever, and what it has tried in the end are the discovered addresses.
A wave whose jobs take turns comes to its end, unless a job panics or does not come back. -/

namespace Panopticon.Proofs.Progress
open Library AdjacencyList Proofs.Insertion Proofs.Conversion Proofs.Discovery Proofs.Waves
open Proofs.Worklist (mem_insert listing instruction listing_single)

variable {Region : Type} {setup : Setup Region} {program : Program}

/-- No address is disassembled twice, only discovered ones are, and all of them when all waves are through. -/
structure Attempts (setup : Setup Region) (program : Program) (state : Analysis) : Prop where
  once : state.shared.disassembled.Nodup
  discovered : ∀ a ∈ state.shared.disassembled, Discovered setup program a
  complete : state.Ended → ∀ a, Discovered setup program a → a ∈ state.shared.disassembled

private theorem analyze_attempts (deterministic : Deterministic setup) {vertices : Enumeration Nat} {plan : Nat → Interleaving} {rounds : Nat}
    (calm : Calm (analyze setup vertices plan rounds program)) :
    Attempts setup program (analyze setup vertices plan rounds program) := by
  have explores := analyze_explores deterministic calm
  refine ⟨explores.once, fun a member => ?_, fun ended a discovered => ?_⟩
  · exact explores.sound a (.inl ((explores.disassembled a).mp member))
  · exact (explores.disassembled a).mpr ((explores.complete ended a).mpr discovered)

section Wave
variable {state : Analysis} {i : Nat} {job : Job}

/-- Steps the job has left at most, unless it has to wait. -/
def work (setup : Setup Region) (job : Job) : Nat :=
  match job.stage with
  | .waiting =>
    match job.request.disassemble setup job.draw with
    | some (.ok f) => (f.collectCallAddresses job.draw.blocks).length + 2
    | _ => 1
  | .recording _ pending => pending.length + 1
  | _ => 0

def left (setup : Setup Region) (state : Analysis) : Nat := (state.jobs.map (work setup)).sum

def Lost (state : Analysis) : Prop := ∃ job ∈ state.jobs, job.stage = .crashed ∨ job.stage = .hung

theorem step_progress (setup : Setup Region) (shared : Shared) (job : Job) :
    shared.step setup job = (shared, job.stage) ∧
        (job.stage = .waiting ∧ shared.attempts[job.request.entry]? = some .running ∨
          job.stage = .finished ∨ job.stage = .crashed ∨ job.stage = .hung) ∨
      work setup { job with stage := (shared.step setup job).2 } < work setup job := by
  obtain ⟨request, draw, stage⟩ := job
  cases stage with
  | finished => exact .inl ⟨rfl, .inr (.inl rfl)⟩
  | crashed => exact .inl ⟨rfl, .inr (.inr (.inl rfl))⟩
  | hung => exact .inl ⟨rfl, .inr (.inr (.inr rfl))⟩
  | recording f pending =>
    refine .inr ?_
    cases pending with
    | cons c pending => exact Nat.lt_succ_self _
    | nil =>
      simp only [Shared.step, Shared.finish]
      cases convert draw f with
      | fails e => cases e
      | panics => exact Nat.one_pos
      | exhausted => exact Nat.one_pos
      | returns f' =>
        dsimp only
        cases (shared.program.insert draw.insertion f' : Outcome Empty _) with
        | returns result => exact Nat.one_pos
        | fails e => cases e
        | panics => exact Nat.one_pos
        | exhausted => exact Nat.one_pos
  | waiting =>
    have some_work : 0 < work setup ⟨request, draw, .waiting⟩ := by
      simp only [work]
      split <;> omega
    simp only [Shared.step]
    cases found : shared.attempts[request.entry]? with
    | none =>
      refine .inr ?_
      simp only [Shared.begin, work]
      cases request.disassemble setup draw with
      | none => exact Nat.one_pos
      | some result =>
        cases result with
        | error e => exact Nat.one_pos
        | ok f => exact Nat.lt_succ_self _
    | some r =>
      cases r with
      | running => exact .inl ⟨rfl, .inl ⟨trivial, rfl⟩⟩
      | failed => exact .inr some_work
      | succeeded =>
        refine .inr ?_
        dsimp only
        cases shared.again draw request with
        | returns grown => exact some_work
        | fails e => cases e
        | panics => exact some_work
        | exhausted => exact some_work

theorem sum_set_lt {jobs : List Job} {f : Job → Nat} {job' : Job} (found : jobs[i]? = some job) (less : f job' < f job) :
    ((jobs.set i job').map f).sum < (jobs.map f).sum := by
  induction jobs generalizing i with
  | nil => cases found
  | cons first jobs ih =>
    cases i with
    | zero =>
      cases found
      simp only [List.set_cons_zero, List.map_cons, List.sum_cons]
      omega
    | succ i =>
      have rest := ih (i := i) found
      simp only [List.set_cons_succ, List.map_cons, List.sum_cons]
      omega

theorem set_same (found : state.jobs[i]? = some job) : state.jobs.set i { job with stage := job.stage } = state.jobs := by
  obtain ⟨inside, rfl⟩ := List.getElem?_eq_some_iff.mp found
  exact List.set_getElem_self inside

private theorem advance_progress (setup : Setup Region) (state : Analysis) (i : Nat) :
    state.advance setup i = state ∨ left setup (state.advance setup i) < left setup state := by
  cases found : state.jobs[i]? with
  | none => exact .inl (by simp only [Analysis.advance, found])
  | some job =>
    rw [advance_eq found]
    rcases step_progress setup state.shared job with ⟨same, _⟩ | less
    · rw [same, set_same found]
      exact .inl rfl
    · exact .inr (sum_set_lt found less)

/-- As long as a job has not come to its end, some job can get on. A key that is locked belongs to a job that does not wait. -/
theorem can_advance (explores : Explores setup program state) (safe : ¬ Lost state)
    (unfinished : ¬ state.jobs.all Job.isFinished = true) : ∃ i < state.jobs.length, state.advance setup i ≠ state := by
  have moves : ∀ (k : Nat) other, state.jobs[k]? = some other →
      work setup { other with stage := (state.shared.step setup other).2 } < work setup other →
      ∃ i < state.jobs.length, state.advance setup i ≠ state := by
    intro k other found less
    refine ⟨k, (List.getElem?_eq_some_iff.mp found).1, fun same => ?_⟩
    have fewer : left setup (state.advance setup k) < left setup state := by
      rw [advance_eq found]
      exact sum_set_lt found less
    rw [same] at fewer
    exact lt_irrefl _ fewer
  have saved : ∀ (k : Nat) other, state.jobs[k]? = some other → other.stage ≠ .crashed ∧ other.stage ≠ .hung := by
    intro k other found
    refine ⟨fun crashed => safe ⟨other, List.mem_of_getElem? found, .inl crashed⟩,
      fun hung => safe ⟨other, List.mem_of_getElem? found, .inr hung⟩⟩
  rw [finished_iff] at unfinished
  push Not at unfinished
  obtain ⟨k, job, found, open'⟩ := unfinished
  rcases step_progress setup state.shared job with ⟨_, waits | finished | crashed | hung⟩ | less
  · obtain ⟨holder, other, held, _, busy⟩ := explores.running _ waits.2
    rcases step_progress setup state.shared other with ⟨_, waits | finished | crashed | hung⟩ | less
    · rw [waits.1] at busy
      exact busy.elim
    · rw [finished] at busy
      exact busy.elim
    · exact absurd crashed (saved holder other held).1
    · exact absurd hung (saved holder other held).2
    · exact moves holder other held less
  · exact absurd finished open'
  · exact absurd crashed (saved k job found).1
  · exact absurd hung (saved k job found).2
  · exact moves k job found less

private theorem advance_finished (finished : state.jobs.all Job.isFinished = true) (i : Nat) : state.advance setup i = state := by
  cases found : state.jobs[i]? with
  | none => simp only [Analysis.advance, found]
  | some job =>
    have stage := finished_iff.mp finished i job found
    have same : state.shared.step setup job = (state.shared, job.stage) := by
      obtain ⟨request, draw, stage⟩ := job
      cases stage
      rfl
    rw [advance_eq found, same, set_same found]

theorem run_finished (finished : state.jobs.all Job.isFinished = true) (schedule : List Nat) :
    schedule.foldl (Analysis.advance setup) state = state := by
  induction schedule with
  | nil => rfl
  | cons i schedule ih => rw [List.foldl_cons, advance_finished finished, ih]

private theorem length_run (schedule : List Nat) : (schedule.foldl (Analysis.advance setup) state).jobs.length = state.jobs.length := by
  induction schedule generalizing state with
  | nil => rfl
  | cons i schedule ih =>
    rw [List.foldl_cons, ih]
    cases found : state.jobs[i]? with
    | none => simp only [Analysis.advance, found]
    | some job => rw [advance_eq found, List.length_set]

theorem Lost.advance (lost : Lost state) (i : Nat) : Lost (state.advance setup i) := by
  obtain ⟨job, member, stage⟩ := lost
  cases found : state.jobs[i]? with
  | none =>
    simp only [Analysis.advance, found]
    exact ⟨job, member, stage⟩
  | some other =>
    rw [advance_eq found]
    obtain ⟨k, here⟩ := List.mem_iff_getElem?.mp member
    by_cases same : k = i
    · subst same
      obtain rfl := Option.some.inj (found.symm.trans here)
      have stays : (state.shared.step setup other).2 = other.stage := by
        obtain ⟨request, draw, now⟩ := other
        rcases stage with crashed | hung
        · cases crashed
          rfl
        · cases hung
          rfl
      refine ⟨_, List.mem_of_getElem? (List.getElem?_set_self (List.getElem?_eq_some_iff.mp found).1), ?_⟩
      rw [← stays] at stage
      exact stage
    · refine ⟨job, List.mem_of_getElem? (i := k) ?_, stage⟩
      rw [List.getElem?_set_ne (Ne.symm same)]
      exact here

theorem Lost.run (lost : Lost state) (schedule : List Nat) : Lost (schedule.foldl (Analysis.advance setup) state) := by
  induction schedule generalizing state with
  | nil => exact lost
  | cons i schedule ih => exact ih (lost.advance i)

private theorem calm_of_safe (safe : ¬ Lost state) : Calm state := fun _ job found crashed =>
  safe ⟨job, List.mem_of_getElem? found, .inl crashed⟩

private theorem run_progress (setup : Setup Region) (state : Analysis) (schedule : List Nat) :
    (∀ i ∈ schedule, state.advance setup i = state) ∨ left setup (schedule.foldl (Analysis.advance setup) state) < left setup state := by
  induction schedule generalizing state with
  | nil => exact .inl fun i member => absurd member List.not_mem_nil
  | cons i schedule ih =>
    rw [List.forall_mem_cons, List.foldl_cons]
    rcases advance_progress setup state i with same | less
    · rw [same]
      exact (ih state).imp (fun rest => ⟨rfl, rest⟩) id
    · refine .inr ?_
      rcases ih (state.advance setup i) with same | fewer
      · have stays : schedule.foldl (Analysis.advance setup) (state.advance setup i) = state.advance setup i := by
          clear ih
          induction schedule with
          | nil => rfl
          | cons k schedule ih =>
            rw [List.forall_mem_cons] at same
            rw [List.foldl_cons, same.1]
            exact ih same.2
        rwa [stays]
      · omega

/-- In every turn each of the jobs takes a step, and there are enough turns. -/
def Fair (setup : Setup Region) (state : Analysis) (schedule : List Nat) : Prop :=
  ∃ turns : List (List Nat), schedule = turns.flatten ∧ left setup state < turns.length ∧
    ∀ turn ∈ turns, ∀ i < state.jobs.length, i ∈ turn

private theorem wave_ends (deterministic : Deterministic setup) (explores : Explores setup program state) {schedule : List Nat}
    (fair : Fair setup state schedule) : (schedule.foldl (Analysis.advance setup) state).jobs.all Job.isFinished = true ∨
      Lost (schedule.foldl (Analysis.advance setup) state) := by
  obtain ⟨turns, rfl, enough, all⟩ := fair
  induction turns generalizing state with
  | nil => exact absurd enough (Nat.not_lt_zero _)
  | cons turn turns ih =>
    rw [List.forall_mem_cons] at all
    rw [List.flatten_cons, List.foldl_append]
    by_cases finished : state.jobs.all Job.isFinished = true
    · rw [run_finished finished, run_finished finished]
      exact .inl finished
    by_cases lost : Lost (turn.foldl (Analysis.advance setup) state)
    · exact .inr (lost.run _)
    have safe : ¬ Lost state := fun early => lost (early.run _)
    have fewer : left setup (turn.foldl (Analysis.advance setup) state) < left setup state := by
      rcases run_progress setup state turn with same | less
      · obtain ⟨i, inside, moves⟩ := can_advance explores safe finished
        exact absurd (same i (all.1 i inside)) moves
      · exact less
    refine ih (explores.run deterministic turn (calm_of_safe lost)) ?_ ?_
    · rw [List.length_cons] at enough
      omega
    · rw [length_run]
      exact all.2

end Wave

section Waves
variable {first state : Analysis}

/-- Only the keys tried in a wave bring targets for the next one. -/
structure Grows (first state : Analysis) : Prop where
  kept : ∀ a ∈ first.shared.attempts, a ∈ state.shared.attempts
  news : (∃ a ∈ state.shared.attempts, a ∉ first.shared.attempts) ∨
    state.shared.targets = ∅ ∧ ∀ job ∈ state.jobs, ∀ f pending, job.stage ≠ .recording f pending

private theorem rests_recording {shared : Shared} {job : Job} {stage : Stage} (rests : Rests shared job stage) {f : Function}
    {pending : List UInt64} (recording : stage = .recording f pending) : job.stage = .recording f pending := by
  cases rests with
  | stays same => rw [same, recording]
  | hangs => cases recording
  | skips => cases recording

theorem Grows.advance (grows : Grows first state) {i : Nat} {job : Job} (found : state.jobs[i]? = some job)
    (calm : (state.shared.step setup job).2 ≠ .crashed) : Grows first (state.advance setup i) := by
  rw [advance_eq found]
  have recorded : ∀ f pending, job.stage = .recording f pending → ∃ a ∈ state.shared.attempts, a ∉ first.shared.attempts := by
    intro f pending stage
    rcases grows.news with new | ⟨_, none⟩
    · exact new
    · exact absurd stage (none job (List.mem_of_getElem? found) f pending)
  have mem_insert : ∀ (r : Attempt) (a : UInt64), a ∈ state.shared.attempts → a ∈ state.shared.attempts.insert job.request.entry r := by
    intro r a member
    exact Std.ExtTreeMap.mem_insert.mpr (.inr member)
  obtain ⟨idle, rests⟩ | ⟨r, stage, waiting, absent, begins, same⟩ | ⟨f, c, pending, stage, same⟩ |
    ⟨f, f', grown, stage, converted, same⟩ := step_cases setup state.shared job calm
  · constructor
    · dsimp only
      rw [idle.attempts]
      exact grows.kept
    · dsimp only
      rw [idle.attempts, idle.targets]
      refine grows.news.imp id fun nothing => ⟨nothing.1, fun other member f pending => ?_⟩
      rcases List.mem_or_eq_of_mem_set member with old | rfl
      · exact nothing.2 other old f pending
      · exact fun recording => nothing.2 job (List.mem_of_getElem? found) f pending (rests_recording rests recording)
  · rw [same]
    refine ⟨fun a member => mem_insert r a (grows.kept a member), .inl ⟨job.request.entry, ?_, fun old => ?_⟩⟩
    · exact Std.ExtTreeMap.mem_insert_self
    · obtain ⟨r, present⟩ := mem_attempts.mp (grows.kept _ old)
      rw [absent] at present
      cases present
  · rw [same]
    exact ⟨grows.kept, .inl (recorded f _ stage)⟩
  · rw [same]
    obtain ⟨a, member, new⟩ := recorded f _ stage
    exact ⟨fun a member => mem_insert _ a (grows.kept a member), .inl ⟨a, mem_insert _ a member, new⟩⟩

theorem Grows.run (grows : Grows first state) (schedule : List Nat) (calm : Calm (schedule.foldl (Analysis.advance setup) state)) :
    Grows first (schedule.foldl (Analysis.advance setup) state) := by
  induction schedule generalizing state with
  | nil => exact grows
  | cons i schedule ih =>
    refine ih ?_ calm
    have next : Calm (state.advance setup i) := calm_of_run schedule calm
    cases found : state.jobs[i]? with
    | none => simpa [Analysis.advance, found] using grows
    | some job =>
      apply grows.advance found
      rw [advance_eq found] at next
      exact next i _ (List.getElem?_set_self (List.getElem?_eq_some_iff.mp found).1)

/-- A wave that has just begun. -/
structure Begun (state : Analysis) : Prop where
  targets : state.shared.targets = ∅
  waiting : ∀ job ∈ state.jobs, job.stage = .waiting

theorem Begun.grows (begun : Begun state) : Grows state state := by
  refine ⟨fun _ member => member, .inr ⟨begun.targets, fun job member f pending recording => ?_⟩⟩
  rw [begun.waiting job member] at recording
  cases recording

theorem waits_launch {draws : Nat → Draw} {requests : List Request} : ∀ job ∈ Analysis.launch draws requests, job.stage = .waiting := by
  intro job member
  obtain ⟨k, found⟩ := List.mem_iff_getElem?.mp member
  exact launch_waits found

theorem Begun.start (vertices : Enumeration Nat) (draws : Nat → Draw) (program : Program) :
    Begun (Analysis.start vertices draws program) := ⟨rfl, waits_launch⟩

theorem Begun.nextWave (wave : Interleaving) (state : Analysis) : Begun (state.nextWave wave) := ⟨rfl, waits_launch⟩

open Classical in
noncomputable def untried (state : Analysis) : Nat := (Finset.univ.filter (· ∉ state.shared.attempts)).card

theorem Grows.untried_lt (grows : Grows first state) (more : state.shared.targets ≠ ∅) : untried state < untried first := by
  classical
  rcases grows.news with ⟨a, tried, new⟩ | ⟨none, _⟩
  · unfold untried
    apply Finset.card_lt_card
    rw [Finset.ssubset_iff_of_subset]
    · exact ⟨a, by simpa using new, by simpa using tried⟩
    · intro b
      simp only [Finset.mem_filter, Finset.mem_univ, true_and]
      exact fun absent present => absent (grows.kept b present)
  · exact absurd none more

/-- The state in which a wave begins, if the ones before have come to their end. -/
def waveStart (setup : Setup Region) (vertices : Enumeration Nat) (plan : Nat → Interleaving) (program : Program) : Nat → Analysis
  | 0 => .start vertices (plan 0).draws program
  | n + 1 => ((plan n).schedule.foldl (Analysis.advance setup) (waveStart setup vertices plan program n)).nextWave (plan (n + 1))

private theorem waves_end (deterministic : Deterministic setup) {vertices : Enumeration Nat} {plan : Nat → Interleaving}
    (fair : ∀ n, Fair setup (waveStart setup vertices plan program n) (plan n).schedule) (rounds : Nat) {n : Nat}
    (explores : Explores setup program (waveStart setup vertices plan program n))
    (begun : Begun (waveStart setup vertices plan program n)) (enough : untried (waveStart setup vertices plan program n) < rounds) :
    ((waveStart setup vertices plan program n).waves setup plan rounds n).Ended ∨
      Lost ((waveStart setup vertices plan program n).waves setup plan rounds n) := by
  induction rounds generalizing n with
  | zero => exact absurd enough (Nat.not_lt_zero _)
  | succ rounds ih =>
    unfold Analysis.waves
    dsimp only
    rcases wave_ends deterministic explores (fair n) with finished | lost
    · by_cases more : ((plan n).schedule.foldl (Analysis.advance setup) (waveStart setup vertices plan program n)).shared.targets = ∅
      · rw [if_neg (by rw [more]; simp)]
        exact .inl ⟨finished, by rw [more]; rfl⟩
      · rw [if_pos (by simpa [finished, Std.ExtTreeSet.isEmpty_iff] using more)]
        have grows := begun.grows.run (plan n).schedule (calm_of_finished finished)
        have fewer := grows.untried_lt more
        refine ih (n := n + 1) ?_ (.nextWave _ _) ?_
        · exact (explores.run deterministic _ (calm_of_finished finished)).nextWave finished _
        · have same : untried (waveStart setup vertices plan program (n + 1)) =
              untried ((plan n).schedule.foldl (Analysis.advance setup) (waveStart setup vertices plan program n)) := rfl
          omega
    · by_cases more : (((plan n).schedule.foldl (Analysis.advance setup) (waveStart setup vertices plan program n)).jobs.all
          Job.isFinished && !((plan n).schedule.foldl (Analysis.advance setup) (waveStart setup vertices plan program n)).shared.targets.isEmpty) = true
      · obtain ⟨job, member, stage⟩ := lost
        simp only [Bool.and_eq_true] at more
        obtain ⟨k, found⟩ := List.mem_iff_getElem?.mp member
        rw [finished_iff.mp more.1 k job found] at stage
        rcases stage with stage | stage <;> cases stage
      · rw [if_neg more]
        exact .inr lost

/-- The analysis does not deadlock and does not go on for ever. When the jobs of each wave take turns, it comes to its end after at
most one wave for each address, unless a job panics or does not come back. -/
theorem analyze_ends (deterministic : Deterministic setup) {vertices : Enumeration Nat} {plan : Nat → Interleaving}
    (fair : ∀ n, Fair setup (waveStart setup vertices plan program n) (plan n).schedule) {rounds : Nat}
    (enough : Fintype.card UInt64 < rounds) :
    (analyze setup vertices plan rounds program).Ended ∨ Lost (analyze setup vertices plan rounds program) := by
  classical
  have bound : untried (Analysis.start vertices (plan 0).draws program) ≤ Fintype.card UInt64 := Finset.card_le_univ _
  exact waves_end deterministic fair rounds (n := 0) (.start vertices _) (.start vertices _ program) (bound.trans_lt enough)

/-- Every run tries discovered addresses only, each once, and comes to its end with all of them. -/
structure Discovers (setup : Setup Region) (program : Program) : Prop where
  attempts : ∀ vertices plan rounds, Calm (analyze setup vertices plan rounds program) →
    Attempts setup program (analyze setup vertices plan rounds program)
  ends : ∀ vertices plan rounds, (∀ n, Fair setup (waveStart setup vertices plan program n) (plan n).schedule) →
    Fintype.card UInt64 < rounds →
      (analyze setup vertices plan rounds program).Ended ∨ Lost (analyze setup vertices plan rounds program)

/-- Code with one instruction at address 0 and one at address 2. -/
def twoNops : Setup Unit := ⟨listing [instruction 0 1 [], instruction 2 3 []], (), (), "code"⟩

def twoPlaces : Program where
  callGraph := ((AdjacencyList.new.addVertex (.todo (.newU64 0) (some "main") 1)).1.addVertex
    (.todo (.newU64 2) (some "start") 2)).1

/-- Both jobs of the first wave take four steps, and there is no other wave. -/
def inTurns (n : Nat) : Interleaving := ⟨.canonical, fun _ => .canonical 8, if n = 0 then (List.replicate 5 [0, 1]).flatten else []⟩

private theorem inTurns_fair (n : Nat) : Fair twoNops (waveStart twoNops .canonical inTurns twoPlaces n) (inTurns n).schedule := by
  cases n with
  | zero =>
    have few : left twoNops (Analysis.start .canonical (inTurns 0).draws twoPlaces) < 5 := by decide
    refine ⟨List.replicate 5 [0, 1], rfl, by rwa [List.length_replicate], fun turn member i inside => ?_⟩
    have two : (waveStart twoNops .canonical inTurns twoPlaces 0).jobs.length = 2 := by decide
    rw [two] at inside
    obtain rfl := (List.mem_replicate.mp member).2
    interval_cases i <;> decide
  | succ n =>
    have none : ∀ n, (waveStart twoNops .canonical inTurns twoPlaces (n + 1)).jobs = [] := by
      intro n
      induction n with
      | zero =>
        have targets : ((inTurns 0).schedule.foldl (Analysis.advance twoNops)
            (Analysis.start .canonical (inTurns 0).draws twoPlaces)).shared.targets.toList = [] := by decide
        simp only [waveStart, Analysis.nextWave, targets]
        rfl
      | succ n ih =>
        have begun : Begun (waveStart twoNops .canonical inTurns twoPlaces (n + 1)) := .nextWave _ _
        have idle : (inTurns (n + 1)).schedule = [] := rfl
        rw [waveStart, idle, List.foldl_nil, Analysis.nextWave, begun.targets]
        rfl
    refine ⟨[[]], rfl, ?_, fun turn member i inside => ?_⟩
    · rw [left, none]
      exact Nat.one_pos
    · rw [none] at inside
      exact absurd inside (Nat.not_lt_zero i)

end Waves
end Panopticon.Proofs.Progress
