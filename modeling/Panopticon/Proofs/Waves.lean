import Panopticon.Proofs.Pipeline

/-! What the parallel driver disassembles and inserts, under every interleaving of the jobs
of each wave. -/

namespace Panopticon.Proofs.Waves
open Library AdjacencyList Proofs.Insertion Proofs.Conversion Proofs.Discovery
open Proofs.Worklist (mem_insert)

variable {Region : Type} {setup : Setup Region} {program : Program}

theorem getElem?_attempts (attempts : Std.ExtTreeMap UInt64 Attempt) (e a : UInt64) (r : Attempt) :
    (attempts.insert e r)[a]? = if a = e then some r else attempts[a]? := by
  simp only [Std.ExtTreeMap.getElem?_insert, Std.LawfulEqCmp.compare_eq_iff_eq, eq_comm (a := e)]

/-- The step leaves the maps and lists alone; at most the program changes. -/
structure Idle (shared shared' : Shared) : Prop where
  attempts : shared'.attempts = shared.attempts
  targets : shared'.targets = shared.targets
  disassembled : shared'.disassembled = shared.disassembled
  inserted : shared'.inserted = shared.inserted

/-- The stages a job may come to when its key is there, or when it does not come back. -/
inductive Rests (shared : Shared) (job : Job) : Stage → Prop where
  | stays {stage : Stage} : job.stage = stage → Rests shared job stage
  | hangs {f : Function} : job.stage = .recording f [] → Rests shared job .hung
  | skips {r : Attempt} : job.stage = .waiting → r ≠ .running → shared.attempts[job.request.entry]? = some r →
      Rests shared job .finished

/-- What the disassembly of a new key answers, with the entry and the stage it leads to. -/
inductive Begins (setup : Setup Region) (job : Job) : Attempt → Stage → Prop where
  | fails {e : String} : job.request.disassemble setup job.draw = some (.error e) → Begins setup job .failed .finished
  | succeeds {f : Function} : job.request.disassemble setup job.draw = some (.ok f) →
      Begins setup job .running (.recording f (f.collectCallAddresses job.draw.blocks))
  | hangs : Begins setup job .running .hung

theorem step_cases (setup : Setup Region) (shared : Shared) (job : Job) (calm : (shared.step setup job).2 ≠ .crashed) :
    (Idle shared (shared.step setup job).1 ∧ Rests shared job (shared.step setup job).2) ∨
    (∃ r stage, job.stage = .waiting ∧ shared.attempts[job.request.entry]? = none ∧ Begins setup job r stage ∧
      shared.step setup job = ({ shared with
        attempts := shared.attempts.insert job.request.entry r
        disassembled := shared.disassembled ++ [job.request.entry] }, stage)) ∨
    (∃ f c pending, job.stage = .recording f (c :: pending) ∧
      shared.step setup job = ({ shared with targets := shared.targets.insert c }, .recording f pending)) ∨
    (∃ f f' grown, job.stage = .recording f [] ∧ convert job.draw f = .returns f' ∧
      shared.step setup job = ({ shared with
        program := grown
        attempts := shared.attempts.insert job.request.entry .succeeded
        inserted := shared.inserted ++ [f'] }, .finished)) := by
  obtain ⟨request, draw, stage⟩ := job
  have idle : Idle shared shared := ⟨rfl, rfl, rfl, rfl⟩
  cases stage with
  | finished => exact .inl ⟨idle, .stays rfl⟩
  | crashed => exact .inl ⟨idle, .stays rfl⟩
  | hung => exact .inl ⟨idle, .stays rfl⟩
  | waiting =>
    simp only [Shared.step] at calm ⊢
    cases found : shared.attempts[request.entry]? with
    | none =>
      refine .inr (.inl ?_)
      simp only [Shared.begin]
      cases done : request.disassemble setup draw with
      | none => exact ⟨.running, .hung, trivial, trivial, .hangs, rfl⟩
      | some result =>
        cases result with
        | error e => exact ⟨.failed, .finished, trivial, trivial, .fails done, rfl⟩
        | ok f => exact ⟨.running, _, trivial, trivial, .succeeds done, rfl⟩
    | some r =>
      refine .inl ?_
      cases r with
      | running => exact ⟨idle, .stays rfl⟩
      | failed => exact ⟨idle, .skips rfl Attempt.noConfusion found⟩
      | succeeded =>
        have skips : Rests shared ⟨request, draw, .waiting⟩ .finished := .skips rfl Attempt.noConfusion found
        simp only [found] at calm ⊢
        cases aliased : shared.again draw request with
        | returns grown =>
          refine ⟨?_, skips⟩
          cases request with
          | call address =>
            cases aliased
            exact idle
          | todo init =>
            simp only [Shared.again, Outcome.bind_eq_returns, Outcome.pure_eq, Outcome.returns.injEq] at aliased
            obtain ⟨named, -, rfl⟩ := aliased
            exact ⟨rfl, rfl, rfl, rfl⟩
        | fails e => cases e
        | panics => exact absurd (by rw [aliased]) calm
        | exhausted => exact absurd (by rw [aliased]) calm
  | recording f pending =>
    cases pending with
    | cons c pending => exact .inr (.inr (.inl ⟨f, c, pending, rfl, rfl⟩))
    | nil =>
      simp only [Shared.step, Shared.finish] at calm ⊢
      cases converted : convert draw f with
      | exhausted => exact .inl ⟨idle, .hangs rfl⟩
      | fails e => cases e
      | panics => exact absurd (by rw [converted]) calm
      | returns f' =>
        simp only [converted] at calm ⊢
        cases grown : (shared.program.insert draw.insertion f' : Outcome Empty _) with
        | returns result => exact .inr (.inr (.inr ⟨f, f', result.1, rfl, converted, rfl⟩))
        | fails e => cases e
        | panics => exact absurd (by rw [grown]) calm
        | exhausted => exact absurd (by rw [grown]) calm

def Busy : Stage → Prop
  | .recording _ _ => True
  | .hung => True
  | _ => False

/-- What the stage of a job says about the shared variables. -/
def Fits (setup : Setup Region) (shared : Shared) (job : Job) : Prop :=
  match job.stage with
  | .waiting => True
  | .crashed => False
  | .hung => True
  | .finished => ∃ r, r ≠ .running ∧ shared.attempts[job.request.entry]? = some r
  | .recording f pending =>
    shared.attempts[job.request.entry]? = some .running ∧ job.request.disassemble setup job.draw = some (.ok f) ∧
    (∀ c ∈ pending, Leads setup job.request.entry c) ∧
    ∀ c, Leads setup job.request.entry c → c ∈ pending ∨ c ∈ shared.targets

/-- The addresses the jobs of the wave are for. -/
def asked (jobs : List Job) : List UInt64 := jobs.map fun job => job.request.entry

/-- The address is dealt with, or somebody is going to deal with it. -/
def Covered (state : Analysis) (a : UInt64) : Prop :=
  a ∈ state.shared.attempts ∨ a ∈ state.shared.targets ∨ a ∈ asked state.jobs

structure Explores (setup : Setup Region) (program : Program) (state : Analysis) : Prop where
  sound : ∀ a, Covered state a → Discovered setup program a
  seeds : ∀ a, Seed program a → Covered state a
  closed : ∀ a c, state.shared.attempts[a]? = some .succeeded → Leads setup a c → Covered state c
  succeeded : ∀ a, state.shared.attempts[a]? = some .succeeded → ∃ f, Recovers setup a f
  failed : ∀ a, state.shared.attempts[a]? = some .failed → ∀ f, ¬ Recovers setup a f
  inserted : ∀ a, a ∈ starts state.shared.inserted ↔ state.shared.attempts[a]? = some .succeeded
  once : state.shared.disassembled.Nodup
  disassembled : ∀ a, a ∈ state.shared.disassembled ↔ a ∈ state.shared.attempts
  fits : ∀ (k : Nat) job, state.jobs[k]? = some job → Fits setup state.shared job
  running : ∀ a, state.shared.attempts[a]? = some .running →
    ∃ (k : Nat) (job : Job), state.jobs[k]? = some job ∧ job.request.entry = a ∧ Busy job.stage
  alone : ∀ (k k' : Nat) (job job' : Job) f f' pending pending', state.jobs[k]? = some job → state.jobs[k']? = some job' →
    job.stage = .recording f pending → job'.stage = .recording f' pending' → job.request.entry = job'.request.entry → k = k'

theorem asked_set {jobs : List Job} {i : Nat} {job : Job} (found : jobs[i]? = some job) (stage : Stage) :
    asked (jobs.set i { job with stage }) = asked jobs := by
  unfold asked
  rw [List.map_set]
  refine List.ext_getElem? fun k => ?_
  rw [List.getElem?_set]
  split
  · next same =>
    subst same
    split
    · simp [found]
    · next outside => simp [List.getElem?_eq_none (Nat.le_of_not_lt (by simpa using outside))]
  · rfl

theorem mem_attempts {attempts : Std.ExtTreeMap UInt64 Attempt} {a : UInt64} : a ∈ attempts ↔ ∃ r, attempts[a]? = some r := by
  rw [← Std.ExtTreeMap.isSome_getElem?_iff_mem, Option.isSome_iff_exists]

/-- The jobs after job `i` has come to another stage. -/
theorem job_cases {jobs : List Job} {i k : Nat} {job other : Job} {stage : Stage} (found : jobs[i]? = some job)
    (now : (jobs.set i { job with stage })[k]? = some other) :
    (k = i ∧ other = { job with stage }) ∨ (k ≠ i ∧ jobs[k]? = some other) := by
  rw [List.getElem?_set] at now
  split at now
  · next same =>
    have inside := (List.getElem?_eq_some_iff.mp found).1
    rw [if_pos inside] at now
    cases now
    exact .inl ⟨same.symm, rfl⟩
  · next other => exact .inr ⟨Ne.symm other, now⟩

section Step
variable {state : Analysis} {i : Nat} {job : Job}

theorem advance_eq (found : state.jobs[i]? = some job) :
    state.advance setup i = ⟨(state.shared.step setup job).1, state.jobs.set i { job with stage := (state.shared.step setup job).2 }⟩ := by
  simp only [Analysis.advance, found]

theorem Explores.rests (explores : Explores setup program state) (found : state.jobs[i]? = some job) {shared : Shared}
    {stage : Stage} (idle : Idle state.shared shared) (rests : Rests state.shared job stage) :
    Explores setup program ⟨shared, state.jobs.set i { job with stage }⟩ := by
  have covered : ∀ a, Covered ⟨shared, state.jobs.set i { job with stage }⟩ a ↔ Covered state a := by
    intro a
    simp only [Covered, idle.attempts, idle.targets, asked_set found]
  have kept : ∀ {k : Nat} {other : Job}, (state.jobs.set i { job with stage })[k]? = some other →
      ∀ f pending, other.stage = .recording f pending → state.jobs[k]? = some other := by
    intro k other now f pending recording
    rcases job_cases found now with ⟨rfl, rfl⟩ | ⟨-, old⟩
    · cases rests with
      | stays same => rw [found, ← same]
      | hangs => cases recording
      | skips => cases recording
    · exact old
  constructor
  · intro a member
    exact explores.sound a ((covered a).mp member)
  · intro a seed
    exact (covered a).mpr (explores.seeds a seed)
  · intro a c done leads
    rw [idle.attempts] at done
    exact (covered c).mpr (explores.closed a c done leads)
  · rw [idle.attempts]
    exact explores.succeeded
  · rw [idle.attempts]
    exact explores.failed
  · rw [idle.attempts, idle.inserted]
    exact explores.inserted
  · rw [idle.disassembled]
    exact explores.once
  · rw [idle.disassembled, idle.attempts]
    exact explores.disassembled
  · intro k other now
    have fits : Fits setup state.shared other → Fits setup shared other := by
      unfold Fits
      rw [idle.attempts, idle.targets]
      exact id
    refine fits ?_
    rcases job_cases found now with ⟨rfl, rfl⟩ | ⟨-, old⟩
    · cases rests with
      | stays same => rw [← same]; exact explores.fits k job found
      | hangs => trivial
      | skips _ apart present => exact ⟨_, apart, present⟩
    · exact explores.fits k other old
  · intro a running
    rw [idle.attempts] at running
    obtain ⟨k, other, old, entry, busy⟩ := explores.running a running
    by_cases same : k = i
    · subst same
      rw [found] at old
      cases old
      refine ⟨k, { job with stage }, ?_, entry, ?_⟩
      · rw [List.getElem?_set_self (List.getElem?_eq_some_iff.mp found).1]
      · cases rests with
        | stays same => rw [← same]; exact busy
        | hangs => trivial
        | skips waiting => rw [waiting] at busy; exact busy.elim
    · exact ⟨k, other, by rw [List.getElem?_set_ne (Ne.symm same)]; exact old, entry, busy⟩
  · intro k k' other other' f f' pending pending' now now' recording recording'
    exact explores.alone k k' other other' f f' pending pending' (kept now f pending recording)
      (kept now' f' pending' recording') recording recording'

/-- Other jobs notice nothing of an entry that is not theirs, and of more targets. -/
theorem Fits.mono {shared shared' : Shared} {other : Job} (fits : Fits setup shared other)
    (entry : ∀ r, shared.attempts[other.request.entry]? = some r → shared'.attempts[other.request.entry]? = some r)
    (targets : ∀ a, a ∈ shared.targets → a ∈ shared'.targets) : Fits setup shared' other := by
  unfold Fits at fits ⊢
  split
  · trivial
  · next crashed =>
    rw [crashed] at fits
    exact fits
  · trivial
  · next finished =>
    rw [finished] at fits
    obtain ⟨r, apart, present⟩ := fits
    exact ⟨r, apart, entry r present⟩
  · next f pending recording =>
    rw [recording] at fits
    obtain ⟨present, done, calls, complete⟩ := fits
    exact ⟨entry _ present, done, calls, fun c leads => (complete c leads).imp id (targets c)⟩

theorem Explores.begins (deterministic : Deterministic setup) (explores : Explores setup program state)
    (found : state.jobs[i]? = some job) (waiting : job.stage = .waiting)
    (absent : state.shared.attempts[job.request.entry]? = none) {r : Attempt} {stage : Stage} (begins : Begins setup job r stage) :
    Explores setup program ⟨{ state.shared with
      attempts := state.shared.attempts.insert job.request.entry r
      disassembled := state.shared.disassembled ++ [job.request.entry] }, state.jobs.set i { job with stage }⟩ := by
  have unfinished : r ≠ .succeeded := by cases begins <;> exact Attempt.noConfusion
  have here : job.request.entry ∈ asked state.jobs := List.mem_map_of_mem (List.mem_of_getElem? found)
  have grows : ∀ (a : UInt64) r', state.shared.attempts[a]? = some r' →
      (state.shared.attempts.insert job.request.entry r)[a]? = some r' := by
    intro a r' present
    rw [getElem?_attempts, if_neg]
    · exact present
    · intro same
      rw [same, absent] at present
      cases present
  have mem_grown : ∀ a, a ∈ state.shared.attempts.insert job.request.entry r ↔
      a = job.request.entry ∨ a ∈ state.shared.attempts := by
    intro a
    rw [Std.ExtTreeMap.mem_insert, Std.LawfulEqCmp.compare_eq_iff_eq, eq_comm]
  have covered : ∀ a, Covered ⟨{ state.shared with
      attempts := state.shared.attempts.insert job.request.entry r
      disassembled := state.shared.disassembled ++ [job.request.entry] }, state.jobs.set i { job with stage }⟩ a ↔
      Covered state a := by
    intro a
    simp only [Covered, mem_grown, asked_set found]
    constructor
    · intro member
      rcases member with (rfl | old) | rest
      · exact .inr (.inr here)
      · exact .inl old
      · exact .inr rest
    · intro member
      rcases member with old | rest
      · exact .inl (.inr old)
      · exact .inr rest
  have unchanged : ∀ a : UInt64, (state.shared.attempts.insert job.request.entry r)[a]? = some .succeeded ↔
      state.shared.attempts[a]? = some .succeeded := by
    intro a
    rw [getElem?_attempts]
    split
    · next same =>
      rw [same, absent]
      simpa using unfinished
    · rfl
  constructor
  · intro a member
    exact explores.sound a ((covered a).mp member)
  · intro a seed
    exact (covered a).mpr (explores.seeds a seed)
  · intro a c done leads
    exact (covered c).mpr (explores.closed a c ((unchanged a).mp done) leads)
  · intro a done
    exact explores.succeeded a ((unchanged a).mp done)
  · intro a failed f
    simp only [getElem?_attempts] at failed
    split at failed
    · next same =>
      cases failed
      cases begins with
      | fails done =>
        rw [same]
        exact not_recovers deterministic done f
    · exact explores.failed a failed f
  · intro a
    rw [unchanged]
    exact explores.inserted a
  · rw [← List.concat_eq_append]
    refine explores.once.concat fun member => ?_
    obtain ⟨r', present⟩ := mem_attempts.mp ((explores.disassembled _).mp member)
    rw [absent] at present
    cases present
  · intro a
    rw [List.mem_append, List.mem_singleton, mem_grown, explores.disassembled, or_comm]
  · intro k other now
    rcases job_cases found now with ⟨rfl, rfl⟩ | ⟨-, old⟩
    · cases begins with
      | fails done => exact ⟨.failed, Attempt.noConfusion, by simp⟩
      | hangs => trivial
      | @succeeds f done =>
        have calls (c : UInt64) : c ∈ f.collectCallAddresses job.draw.blocks ↔ Leads setup job.request.entry c :=
          mem_collectCallAddresses.trans (leads_iff deterministic done c).symm
        exact ⟨by simp, done, fun c member => (calls c).mp member, fun c leads => .inl ((calls c).mpr leads)⟩
    · exact (explores.fits k other old).mono (grows other.request.entry) (fun a member => member)
  · intro a running
    simp only [getElem?_attempts] at running
    split at running
    · next same =>
      refine ⟨i, { job with stage }, ?_, same.symm, ?_⟩
      · rw [List.getElem?_set_self (List.getElem?_eq_some_iff.mp found).1]
      · cases running
        cases begins <;> trivial
    · obtain ⟨k, other, old, entry, busy⟩ := explores.running a running
      refine ⟨k, other, ?_, entry, busy⟩
      rw [List.getElem?_set_ne]
      · exact old
      · intro same
        subst same
        rw [found] at old
        cases old
        rw [waiting] at busy
        exact busy
  · intro k k' other other' f f' pending pending' now now' recording recording' same
    -- a job that records already holds a key, so it is not the key that was absent
    have apart : ∀ {k : Nat} {other : Job} {f : Function} {pending : List UInt64}, state.jobs[k]? = some other →
        other.stage = .recording f pending → other.request.entry ≠ job.request.entry := by
      intro k other f pending old recording same
      have fits := explores.fits k other old
      simp only [Fits, recording, same, absent] at fits
      exact absurd fits.1 (by simp)
    rcases job_cases found now with ⟨rfl, rfl⟩ | ⟨-, old⟩
    · rcases job_cases found now' with ⟨rfl, rfl⟩ | ⟨-, old'⟩
      · rfl
      · exact absurd same.symm (apart old' recording')
    · rcases job_cases found now' with ⟨rfl, rfl⟩ | ⟨-, old'⟩
      · exact absurd same (apart old recording)
      · exact explores.alone k k' other other' f f' pending pending' old old' recording recording' same

theorem Explores.records (explores : Explores setup program state) (found : state.jobs[i]? = some job) {f : Function}
    {c : UInt64} {pending : List UInt64} (stage : job.stage = .recording f (c :: pending)) :
    Explores setup program ⟨{ state.shared with targets := state.shared.targets.insert c },
      state.jobs.set i { job with stage := .recording f pending }⟩ := by
  have here := explores.fits i job found
  simp only [Fits, stage] at here
  obtain ⟨present, done, calls, complete⟩ := here
  have discovered : Discovered setup program job.request.entry :=
    explores.sound _ (.inl (mem_attempts.mpr ⟨_, present⟩))
  have covers : ∀ a, Covered state a → Covered ⟨{ state.shared with targets := state.shared.targets.insert c },
      state.jobs.set i { job with stage := .recording f pending }⟩ a := by
    intro a member
    simp only [Covered, mem_insert, asked_set found]
    rcases member with tried | target | waiting
    · exact .inl tried
    · exact .inr (.inl (.inr target))
    · exact .inr (.inr waiting)
  refine ⟨?_, fun a seed => covers a (explores.seeds a seed), fun a c done leads => covers c (explores.closed a c done leads),
    explores.succeeded, explores.failed, explores.inserted, explores.once, explores.disassembled, ?_, ?_, ?_⟩
  · intro a member
    simp only [Covered, mem_insert, asked_set found] at member
    rcases member with tried | (rfl | target) | waiting
    · exact explores.sound a (.inl tried)
    · exact discovered.next (calls a List.mem_cons_self)
    · exact explores.sound a (.inr (.inl target))
    · exact explores.sound a (.inr (.inr waiting))
  · intro k other now
    rcases job_cases found now with ⟨rfl, rfl⟩ | ⟨-, old⟩
    · refine ⟨present, done, fun a member => calls a (List.mem_cons_of_mem _ member), fun a leads => ?_⟩
      simp only [mem_insert]
      rcases complete a leads with waiting | target
      · rcases List.mem_cons.mp waiting with rfl | waiting
        · exact .inr (.inl rfl)
        · exact .inl waiting
      · exact .inr (.inr target)
    · exact (explores.fits k other old).mono (fun _ present => present) (fun a member => (mem_insert _ _ _).mpr (.inr member))
  · intro a running
    obtain ⟨k, other, old, entry, busy⟩ := explores.running a running
    by_cases same : k = i
    · subst same
      rw [found] at old
      cases old
      exact ⟨k, _, List.getElem?_set_self (List.getElem?_eq_some_iff.mp found).1, entry, trivial⟩
    · exact ⟨k, other, by rw [List.getElem?_set_ne (Ne.symm same)]; exact old, entry, busy⟩
  · intro k k' other other' g g' rest rest' now now' recording recording' same
    rcases job_cases found now with ⟨rfl, rfl⟩ | ⟨-, old⟩
    · rcases job_cases found now' with ⟨rfl, rfl⟩ | ⟨-, old'⟩
      · rfl
      · exact explores.alone k k' job other' f g' _ rest' found old' stage recording' same
    · rcases job_cases found now' with ⟨rfl, rfl⟩ | ⟨-, old'⟩
      · exact explores.alone k k' other job g f rest _ old found recording stage same
      · exact explores.alone k k' other other' g g' rest rest' old old' recording recording' same

theorem Explores.finishes (explores : Explores setup program state) (found : state.jobs[i]? = some job) {f f' : Function}
    (stage : job.stage = .recording f []) (converted : convert job.draw f = .returns f') (grown : Program) :
    Explores setup program ⟨{ state.shared with
      program := grown
      attempts := state.shared.attempts.insert job.request.entry .succeeded
      inserted := state.shared.inserted ++ [f'] }, state.jobs.set i { job with stage := .finished }⟩ := by
  have here := explores.fits i job found
  simp only [Fits, stage] at here
  obtain ⟨present, done, -, complete⟩ := here
  have start : StartsAt f' job.request.entry := (convert_startsAt converted _).mpr (disassemble_startsAt done)
  have mem_grown : ∀ a, a ∈ state.shared.attempts.insert job.request.entry .succeeded ↔ a ∈ state.shared.attempts := by
    intro a
    rw [Std.ExtTreeMap.mem_insert, Std.LawfulEqCmp.compare_eq_iff_eq]
    constructor
    · intro member
      rcases member with rfl | old
      · exact mem_attempts.mpr ⟨_, present⟩
      · exact old
    · exact .inr
  have covered : ∀ a, Covered ⟨{ state.shared with
      program := grown
      attempts := state.shared.attempts.insert job.request.entry .succeeded
      inserted := state.shared.inserted ++ [f'] }, state.jobs.set i { job with stage := .finished }⟩ a ↔ Covered state a := by
    intro a
    simp only [Covered, mem_grown, asked_set found]
  constructor
  · intro a member
    exact explores.sound a ((covered a).mp member)
  · intro a seed
    exact (covered a).mpr (explores.seeds a seed)
  · intro a c succeeded leads
    refine (covered c).mpr ?_
    simp only [getElem?_attempts] at succeeded
    split at succeeded
    · next same =>
      subst same
      exact .inr (.inl ((complete c leads).resolve_left (by simp)))
    · exact explores.closed a c succeeded leads
  · intro a succeeded
    simp only [getElem?_attempts] at succeeded
    split at succeeded
    · next same => exact ⟨f, job.request, job.draw, same.symm, done⟩
    · exact explores.succeeded a succeeded
  · intro a failed
    simp only [getElem?_attempts] at failed
    split at failed
    · cases failed
    · exact explores.failed a failed
  · intro a
    rw [starts_concat start, List.mem_append, List.mem_singleton, explores.inserted, getElem?_attempts]
    by_cases same : a = job.request.entry
    · simp [same]
    · simp [same]
  · exact explores.once
  · intro a
    rw [explores.disassembled, mem_grown]
  · intro k other now
    rcases job_cases found now with ⟨rfl, rfl⟩ | ⟨distinct, old⟩
    · exact ⟨.succeeded, Attempt.noConfusion, by simp⟩
    · have fits := explores.fits k other old
      cases stageOf : other.stage with
      | waiting => simp [Fits, stageOf]
      | crashed => simp [Fits, stageOf] at fits
      | hung => simp [Fits, stageOf]
      | finished =>
        simp only [Fits, stageOf] at fits ⊢
        obtain ⟨r, apart, entry⟩ := fits
        by_cases same : other.request.entry = job.request.entry
        · exact ⟨.succeeded, Attempt.noConfusion, by simp [same]⟩
        · exact ⟨r, apart, by rw [getElem?_attempts, if_neg same]; exact entry⟩
      | recording g rest =>
        refine fits.mono (fun r entry => ?_) (fun a member => member)
        rw [getElem?_attempts, if_neg]
        · exact entry
        · exact fun same => distinct (explores.alone k i other job g f rest [] old found stageOf stage same)
  · intro a running
    simp only [getElem?_attempts] at running
    split at running
    · cases running
    · next distinct =>
      obtain ⟨k, other, old, entry, busy⟩ := explores.running a running
      refine ⟨k, other, ?_, entry, busy⟩
      rw [List.getElem?_set_ne]
      · exact old
      · intro same
        subst same
        rw [found] at old
        cases old
        exact distinct entry.symm
  · intro k k' other other' g g' rest rest' now now' recording recording' same
    rcases job_cases found now with ⟨rfl, rfl⟩ | ⟨-, old⟩
    · cases recording
    · rcases job_cases found now' with ⟨rfl, rfl⟩ | ⟨-, old'⟩
      · cases recording'
      · exact explores.alone k k' other other' g g' rest rest' old old' recording recording' same

theorem Explores.advance (deterministic : Deterministic setup) (explores : Explores setup program state)
    (found : state.jobs[i]? = some job) (calm : (state.shared.step setup job).2 ≠ .crashed) :
    Explores setup program (state.advance setup i) := by
  rw [advance_eq found]
  obtain ⟨idle, rests⟩ | ⟨r, stage, waiting, absent, begins, same⟩ | ⟨f, c, pending, stage, same⟩ |
    ⟨f, f', grown, stage, converted, same⟩ := step_cases setup state.shared job calm
  · exact explores.rests found idle rests
  · rw [same]
    exact explores.begins deterministic found waiting absent begins
  · rw [same]
    exact explores.records found stage
  · rw [same]
    exact explores.finishes found stage converted grown

end Step

def Calm (state : Analysis) : Prop := ∀ (k : Nat) job, state.jobs[k]? = some job → job.stage ≠ .crashed

private theorem step_crashed (shared : Shared) {job : Job} (crashed : job.stage = .crashed) :
    (shared.step setup job).2 = .crashed := by
  obtain ⟨request, draw, stage⟩ := job
  cases crashed
  rfl

private theorem calm_of_advance {state : Analysis} {i : Nat} (calm : Calm (state.advance setup i)) : Calm state := by
  intro k job found crashed
  cases here : state.jobs[i]? with
  | none =>
    simp only [Analysis.advance, here] at calm
    exact calm k job found crashed
  | some other =>
    rw [advance_eq here] at calm
    by_cases same : k = i
    · subst same
      rw [found] at here
      cases here
      exact calm k _ (List.getElem?_set_self (List.getElem?_eq_some_iff.mp found).1) (step_crashed _ crashed)
    · exact calm k job (by rw [List.getElem?_set_ne (Ne.symm same)]; exact found) crashed

theorem calm_of_run {state : Analysis} (schedule : List Nat)
    (calm : Calm (schedule.foldl (Analysis.advance setup) state)) : Calm state := by
  induction schedule generalizing state with
  | nil => exact calm
  | cons i schedule ih => exact calm_of_advance (ih calm)

section
variable (deterministic : Deterministic setup)
include deterministic

theorem Explores.run {state : Analysis} (explores : Explores setup program state) (schedule : List Nat)
    (calm : Calm (schedule.foldl (Analysis.advance setup) state)) :
    Explores setup program (schedule.foldl (Analysis.advance setup) state) := by
  induction schedule generalizing state with
  | nil => exact explores
  | cons i schedule ih =>
    refine ih ?_ calm
    have next : Calm (state.advance setup i) := calm_of_run schedule calm
    cases found : state.jobs[i]? with
    | none => simpa [Analysis.advance, found] using explores
    | some job =>
      refine explores.advance deterministic found ?_
      rw [advance_eq found] at next
      exact next i _ (List.getElem?_set_self (List.getElem?_eq_some_iff.mp found).1)

end

theorem asked_launch (draws : Nat → Draw) (requests : List Request) :
    asked (Analysis.launch draws requests) = requests.map Request.entry := by
  refine List.ext_getElem? fun k => ?_
  simp [asked, Analysis.launch, Option.map_map, Function.comp_def]

theorem launch_waits {draws : Nat → Draw} {requests : List Request} {k : Nat} {job : Job}
    (found : (Analysis.launch draws requests)[k]? = some job) : job.stage = .waiting := by
  simp only [Analysis.launch, List.getElem?_mapIdx, Option.map_eq_some_iff] at found
  obtain ⟨request, -, rfl⟩ := found
  rfl

theorem finished_iff {state : Analysis} :
    state.jobs.all Job.isFinished = true ↔ ∀ (k : Nat) job, state.jobs[k]? = some job → job.stage = .finished := by
  have stage (job : Job) : job.isFinished = true ↔ job.stage = .finished := by
    unfold Job.isFinished
    cases job.stage <;> simp
  rw [List.all_eq_true]
  constructor
  · intro all k job found
    exact (stage job).mp (all job (List.mem_of_getElem? found))
  · intro all job member
    obtain ⟨k, found⟩ := List.mem_iff_getElem?.mp member
    exact (stage job).mpr (all k job found)

theorem calm_of_finished {state : Analysis} (finished : state.jobs.all Job.isFinished = true) : Calm state := by
  intro k job found crashed
  rw [finished_iff.mp finished k job found] at crashed
  cases crashed

/-- Once all jobs have finished, everything asked for has been tried, and no key is locked. -/
theorem Explores.settled {state : Analysis} (explores : Explores setup program state)
    (finished : state.jobs.all Job.isFinished = true) :
    (∀ a ∈ asked state.jobs, a ∈ state.shared.attempts) ∧ ∀ a : UInt64, state.shared.attempts[a]? ≠ some .running := by
  constructor
  · intro a member
    obtain ⟨job, listed, rfl⟩ := List.mem_map.mp member
    obtain ⟨k, found⟩ := List.mem_iff_getElem?.mp listed
    have fits := explores.fits k job found
    simp only [Fits, finished_iff.mp finished k job found] at fits
    obtain ⟨r, -, present⟩ := fits
    exact mem_attempts.mpr ⟨r, present⟩
  · intro a running
    obtain ⟨k, job, found, -, busy⟩ := explores.running a running
    rw [finished_iff.mp finished k job found] at busy
    exact busy

theorem Explores.nextWave {state : Analysis} (explores : Explores setup program state)
    (finished : state.jobs.all Job.isFinished = true) (wave : Interleaving) :
    Explores setup program (state.nextWave wave) := by
  obtain ⟨tried, unlocked⟩ := explores.settled finished
  have mem_asked : ∀ a, a ∈ asked (state.nextWave wave).jobs ↔ a ∈ state.shared.targets := by
    intro a
    simp [Analysis.nextWave, asked_launch, Request.entry, Function.comp_def]
  have covered : ∀ a, Covered (state.nextWave wave) a ↔ Covered state a := by
    intro a
    simp only [Covered, mem_asked]
    constructor
    · intro member
      rcases member with old | none | target
      · exact .inl old
      · exact absurd none Std.ExtTreeSet.not_mem_empty
      · exact .inr (.inl target)
    · intro member
      rcases member with old | target | waiting
      · exact .inl old
      · exact .inr (.inr target)
      · exact .inl (tried a waiting)
  refine ⟨fun a member => explores.sound a ((covered a).mp member), fun a seed => (covered a).mpr (explores.seeds a seed),
    fun a c done leads => (covered c).mpr (explores.closed a c done leads), explores.succeeded, explores.failed,
    explores.inserted, explores.once, explores.disassembled, ?_, ?_, ?_⟩
  · intro k job found
    simp only [Fits, launch_waits found]
  · intro a running
    exact absurd running (unlocked a)
  · intro k k' job job' f f' pending pending' found found' recording
    rw [launch_waits found] at recording
    cases recording

theorem Explores.start (vertices : Enumeration Nat) (draws : Nat → Draw) :
    Explores setup program (Analysis.start vertices draws program) := by
  have covered : ∀ a, Covered (Analysis.start vertices draws program) a ↔ Seed program a := by
    intro a
    simp only [Covered, Analysis.start, asked_launch, List.map_map, List.mem_map, seed_iff vertices]
    simp [Request.entry]
  refine ⟨fun a member => ((covered a).mp member).discovered, fun a seed => (covered a).mpr seed, ?_, ?_, ?_, ?_, ?_, ?_, ?_, ?_, ?_⟩
  · simp [Analysis.start]
  · simp [Analysis.start]
  · simp [Analysis.start]
  · simp [Analysis.start, starts]
  · simp [Analysis.start]
  · simp [Analysis.start]
  · intro k job found
    simp only [Fits, launch_waits found]
  · simp [Analysis.start]
  · intro k k' job job' f f' pending pending' found found' recording
    rw [launch_waits found] at recording
    cases recording

private theorem waves_explores (deterministic : Deterministic setup) (plan : Nat → Interleaving) (rounds : Nat) {n : Nat}
    {state : Analysis} (explores : Explores setup program state) (calm : Calm (state.waves setup plan rounds n)) :
    Explores setup program (state.waves setup plan rounds n) := by
  induction rounds generalizing n state with
  | zero => exact explores
  | succ rounds ih =>
    unfold Analysis.waves at calm ⊢
    simp only at calm ⊢
    split
    · next more =>
      rw [if_pos more] at calm
      simp only [Bool.and_eq_true] at more
      have through := explores.run deterministic (plan n).schedule (calm_of_finished more.1)
      exact ih (through.nextWave more.1 _) calm
    · next done =>
      rw [if_neg done] at calm
      exact explores.run deterministic (plan n).schedule calm

/-- In every run that no job has made panic, what has been disassembled has been discovered and is
disassembled once. -/
theorem analyze_explores (deterministic : Deterministic setup) {vertices : Enumeration Nat} {plan : Nat → Interleaving}
    {rounds : Nat} (calm : Calm (analyze setup vertices plan rounds program)) :
    Explores setup program (analyze setup vertices plan rounds program) :=
  waves_explores deterministic plan rounds (.start vertices _) calm

theorem Explores.complete {state : Analysis} (explores : Explores setup program state) (ended : state.Ended) (a : UInt64) :
    a ∈ state.shared.attempts ↔ Discovered setup program a := by
  obtain ⟨tried, unlocked⟩ := explores.settled ended.1
  have empty : ∀ a, a ∉ state.shared.targets := by
    intro a member
    have none := Std.ExtTreeSet.isEmpty_iff.mp ended.2
    rw [none] at member
    exact Std.ExtTreeSet.not_mem_empty member
  have all : ∀ a, Covered state a → a ∈ state.shared.attempts := by
    intro a member
    rcases member with old | target | waiting
    · exact old
    · exact absurd target (empty a)
    · exact tried a waiting
  refine ⟨fun member => explores.sound a (.inl member), fun discovered => ?_⟩
  refine discovered.induction (fun seed initial => all seed (explores.seeds seed initial)) fun b c member leads => ?_
  obtain ⟨r, present⟩ := mem_attempts.mp member
  cases r with
  | running => exact absurd present (unlocked b)
  | succeeded => exact all c (explores.closed b c present leads)
  | failed =>
    obtain ⟨f, recovers, -⟩ := leads
    exact absurd recovers (explores.failed b present f)

theorem analyze_inserts (deterministic : Deterministic setup) {vertices : Enumeration Nat} {plan : Nat → Interleaving}
    {rounds : Nat} (ended : (analyze setup vertices plan rounds program).Ended) (a : UInt64) :
    a ∈ starts (analyze setup vertices plan rounds program).shared.inserted ↔
      Discovered setup program a ∧ ∃ f, Recovers setup a f := by
  have explores := analyze_explores deterministic (calm_of_finished ended.1)
  rw [explores.inserted, ← explores.complete ended]
  constructor
  · intro succeeded
    exact ⟨mem_attempts.mpr ⟨_, succeeded⟩, explores.succeeded a succeeded⟩
  · intro holds
    obtain ⟨member, f, recovers⟩ := holds
    obtain ⟨r, present⟩ := mem_attempts.mp member
    cases r with
    | succeeded => exact present
    | running => exact absurd present ((explores.settled ended.1).2 a)
    | failed => exact absurd recovers (explores.failed a present f)

end Panopticon.Proofs.Waves
