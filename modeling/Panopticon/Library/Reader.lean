import Panopticon.Library.Outcome

/-! Computations that read an input from a position on and keep notes while they do.
`Local` says that a result depends on the items up to the final position only, and
`Demands` how many items a reader takes for granted: with fewer left it does not answer. -/

namespace Panopticon.Library

/-- Where a reader stands in its input, and its notes. -/
structure Cursor (σ : Type) where
  position : Nat
  notes : σ
  deriving DecidableEq, Repr

def Reader (ε β σ α : Type) := List β → Cursor σ → Outcome ε (α × Cursor σ)

namespace Reader
variable {ε β σ α γ : Type}

instance : Monad (Reader ε β σ) where
  pure a := fun _ here => .returns (a, here)
  bind x f := fun input here => x input here >>= fun (a, next) => f a input next

def fail (error : ε) : Reader ε β σ α := fun _ _ => .fails error

def ofExcept : Except ε α → Reader ε β σ α
  | .ok a => pure a
  | .error error => fail error

def ofOutcome (x : Outcome ε α) : Reader ε β σ α := fun _ here => x >>= fun a => .returns (a, here)

def position : Reader ε β σ Nat := fun _ here => .returns (here.position, here)

def notes : Reader ε β σ σ := fun _ here => .returns (here.notes, here)

def note (update : σ → σ) : Reader ε β σ Unit := fun _ here => .returns ((), { here with notes := update here.notes })

/-- Reads `count` items, or answers the error when the input ends before. -/
def take (error : ε) (count : Nat) : Reader ε β σ (List β) := fun input here =>
  if here.position + count ≤ input.length then
    .returns ((input.drop here.position).take count, { here with position := here.position + count })
  else .fails error

/-- Panics where `x` answers an error. -/
def unwrap (x : Reader ε β σ α) : Reader ε β σ α := fun input here =>
  match x input here with
  | .fails _ => .panics
  | outcome => outcome

/-- Answers `error` in place of the error of `x`. -/
def mapError (error : ε) (x : Reader ε β σ α) : Reader ε β σ α := fun input here =>
  match x input here with
  | .fails _ => .fails error
  | outcome => outcome

@[simp] theorem pure_apply (a : α) (input : List β) (here : Cursor σ) :
    (pure a : Reader ε β σ α) input here = .returns (a, here) := rfl

@[simp] theorem bind_apply (x : Reader ε β σ α) (f : α → Reader ε β σ γ) (input : List β) (here : Cursor σ) :
    (x >>= f) input here = (x input here >>= fun (a, next) => f a input next) := rfl

theorem bind_returns {x : Reader ε β σ α} {f : α → Reader ε β σ γ} {input : List β} {here next : Cursor σ} {c : γ} :
    (x >>= f) input here = .returns (c, next) ↔
      ∃ a middle, x input here = .returns (a, middle) ∧ f a input middle = .returns (c, next) := by
  simp

theorem unwrap_returns {x : Reader ε β σ α} {input : List β} {here : Cursor σ} {result : α × Cursor σ} :
    unwrap x input here = .returns result ↔ x input here = .returns result := by
  unfold unwrap
  split
  next found => simp [found]
  next => rfl

theorem mapError_returns {error : ε} {x : Reader ε β σ α} {input : List β} {here : Cursor σ} {result : α × Cursor σ} :
    mapError error x input here = .returns result ↔ x input here = .returns result := by
  unfold mapError
  split
  next found => simp [found]
  next => rfl

theorem take_returns {error : ε} {count : Nat} {input items : List β} {here next : Cursor σ} :
    take error count input here = .returns (items, next) ↔ here.position + count ≤ input.length ∧
      (input.drop here.position).take count = items ∧ { here with position := here.position + count } = next := by
  unfold take
  split <;> simp [*]

/-- A result depends on the items before the final position only, and a reader never
moves back or past the end. -/
structure Local (x : Reader ε β σ α) : Prop where
  advances : ∀ {input here a next}, x input here = .returns (a, next) → here.position ≤ next.position
  within : ∀ {input here a next}, x input here = .returns (a, next) → here.position ≤ input.length →
    next.position ≤ input.length
  sees : ∀ {input here a next}, x input here = .returns (a, next) → ∀ {other : List β},
    next.position ≤ other.length → other.take next.position = input.take next.position →
    x other here = .returns (a, next)

namespace Local

theorem still {x : Reader ε β σ α} (result : Cursor σ → α × Cursor σ)
    (steady : ∀ input here, x input here = .returns (result here))
    (stays : ∀ here, (result here).2.position = here.position) : Local x := by
  constructor
  · intro input here a next read
    rw [steady, Outcome.returns.injEq] at read
    rw [← stays here, read]
  · intro input here a next read inside
    rw [steady, Outcome.returns.injEq] at read
    rwa [← stays here, read] at inside
  · intro input here a next read other _ _
    rw [steady] at read ⊢
    exact read

theorem pure (a : α) : Local (Pure.pure a : Reader ε β σ α) := still (fun here => (a, here)) (fun _ _ => rfl) fun _ => rfl

theorem position : Local (Reader.position : Reader ε β σ Nat) :=
  still (fun here => (here.position, here)) (fun _ _ => rfl) fun _ => rfl

theorem notes : Local (Reader.notes : Reader ε β σ σ) :=
  still (fun here => (here.notes, here)) (fun _ _ => rfl) fun _ => rfl

theorem note (update : σ → σ) : Local (Reader.note update : Reader ε β σ Unit) :=
  still (fun here => ((), { here with notes := update here.notes })) (fun _ _ => rfl) fun _ => rfl

theorem fail (error : ε) : Local (Reader.fail error : Reader ε β σ α) := by
  constructor <;> (intros; contradiction)

theorem ofExcept (x : Except ε α) : Local (Reader.ofExcept x : Reader ε β σ α) := by
  cases x with
  | ok a => exact pure a
  | error e => exact fail e

theorem ofOutcome (x : Outcome ε α) : Local (Reader.ofOutcome x : Reader ε β σ α) := by
  cases x with
  | returns a => exact pure a
  | fails error => exact fail error
  | panics => constructor <;> (intros; contradiction)
  | exhausted => constructor <;> (intros; contradiction)

theorem bind {x : Reader ε β σ α} {f : α → Reader ε β σ γ} (first : Local x) (second : ∀ a, Local (f a)) :
    Local (x >>= f) := by
  constructor
  · intro input here c next read
    obtain ⟨a, middle, start, rest⟩ := bind_returns.mp read
    exact (first.advances start).trans ((second a).advances rest)
  · intro input here c next read inside
    obtain ⟨a, middle, start, rest⟩ := bind_returns.mp read
    exact (second a).within rest (first.within start inside)
  · intro input here c next read other long same
    obtain ⟨a, middle, start, rest⟩ := bind_returns.mp read
    have shorter := (second a).advances rest
    have before : other.take middle.position = input.take middle.position := by
      rw [← min_eq_left shorter, ← List.take_take, same, List.take_take]
    exact bind_returns.mpr ⟨a, middle, first.sees start (shorter.trans long) before, (second a).sees rest long same⟩

theorem take (error : ε) (count : Nat) : Local (Reader.take error count : Reader ε β σ (List β)) := by
  constructor
  · intro input here a next read
    obtain ⟨_, rfl, rfl⟩ := take_returns.mp read
    exact Nat.le_add_right _ _
  · intro input here a next read _
    obtain ⟨enough, rfl, rfl⟩ := take_returns.mp read
    exact enough
  · intro input here a next read other long same
    obtain ⟨_, rfl, rfl⟩ := take_returns.mp read
    refine take_returns.mpr ⟨long, ?_, rfl⟩
    rw [List.take_drop, List.take_drop, same]

theorem unwrap {x : Reader ε β σ α} (reads : Local x) : Local (Reader.unwrap x) := by
  constructor
  · intro input here a next read
    exact reads.advances (unwrap_returns.mp read)
  · intro input here a next read
    exact reads.within (unwrap_returns.mp read)
  · intro input here a next read other long same
    exact unwrap_returns.mpr (reads.sees (unwrap_returns.mp read) long same)

theorem mapError {error : ε} {x : Reader ε β σ α} (reads : Local x) : Local (Reader.mapError error x) := by
  constructor
  · intro input here a next read
    exact reads.advances (mapError_returns.mp read)
  · intro input here a next read
    exact reads.within (mapError_returns.mp read)
  · intro input here a next read other long same
    exact mapError_returns.mpr (reads.sees (mapError_returns.mp read) long same)

end Local

/-- Answers exactly when there are as many items left as `need` says. -/
structure Demands (need : σ → Nat) (x : Reader ε β σ α) : Prop where
  settles : ∀ {input here}, here.position ≤ input.length →
    ((x input here).Settles ↔ here.position + need here.notes ≤ input.length)

namespace Demands
variable {need : σ → Nat}

theorem quiet {x : Reader ε β σ α} (settles : ∀ input here, (x input here).Settles) : Demands (fun _ => 0) x := by
  constructor
  intro input here inside
  simp [settles input here, inside]

theorem pure (a : α) : Demands (fun _ => 0) (Pure.pure a : Reader ε β σ α) := quiet fun _ _ => trivial

theorem fail (error : ε) : Demands (fun _ => 0) (Reader.fail error : Reader ε β σ α) := quiet fun _ _ => trivial

theorem ofExcept (x : Except ε α) : Demands (fun _ => 0) (Reader.ofExcept x : Reader ε β σ α) := by
  cases x with
  | ok a => exact pure a
  | error e => exact fail e

theorem position : Demands (fun _ => 0) (Reader.position : Reader ε β σ Nat) := quiet fun _ _ => trivial

theorem notes : Demands (fun _ => 0) (Reader.notes : Reader ε β σ σ) := quiet fun _ _ => trivial

theorem note (update : σ → σ) : Demands (fun _ => 0) (Reader.note update : Reader ε β σ Unit) := quiet fun _ _ => trivial

theorem take (error : ε) (count : Nat) : Demands (fun _ => 0) (Reader.take error count : Reader ε β σ (List β)) := by
  apply quiet
  intro input here
  unfold Reader.take
  split <;> trivial

theorem mapError {error : ε} {x : Reader ε β σ α} (first : Demands need x) : Demands need (Reader.mapError error x) := by
  constructor
  intro input here inside
  rw [← first.settles inside]
  unfold Reader.mapError
  split
  next found => simp [found]
  next => rfl

theorem bind {x : Reader ε β σ α} {f : α → Reader ε β σ γ} (first : Demands need x) (moves : Local x)
    (second : ∀ a, Demands (fun _ => 0) (f a)) : Demands need (x >>= f) := by
  constructor
  intro input here inside
  rw [bind_apply, Outcome.settles_bind, ← first.settles inside, and_iff_left_iff_imp]
  intro _ result read
  have within := moves.within read inside
  exact ((second result.1).settles within).mpr within

theorem unwrap_take_bind {error : ε} {count more : Nat} {value : List β → α} {f : α → Reader ε β σ γ}
    (second : ∀ a, Demands (fun _ => more) (f a)) :
    Demands (fun _ => count + more)
      (Reader.unwrap (Reader.take error count >>= fun items => Pure.pure (value items)) >>= f) := by
  constructor
  intro input here _
  by_cases enough : here.position + count ≤ input.length
  · have read : Reader.take error count input here = .returns (_, _) := take_returns.mpr ⟨enough, rfl, rfl⟩
    simp only [bind_apply, Reader.unwrap, read, Outcome.returns_bind, pure_apply]
    rw [(second _).settles enough]
    simp only [Nat.add_assoc]
  · simp only [bind_apply, Reader.unwrap, Reader.take, enough, if_false, Outcome.fails_bind, Outcome.panics_bind,
      Outcome.not_settles_panics, false_iff]
    omega

end Demands

/-- What holds after a reader that returns, given what held before. -/
def Ensures (pre : Cursor σ → Prop) (post : α → Cursor σ → Prop) (x : Reader ε β σ α) : Prop :=
  ∀ input here a next, pre here → x input here = .returns (a, next) → post a next

namespace Ensures
variable {pre : Cursor σ → Prop} {post : α → Cursor σ → Prop}

theorem pure {a : α} (holds : ∀ here, pre here → post a here) :
    Ensures pre post (Pure.pure a : Reader ε β σ α) := by
  intro input here b next before read
  cases read
  exact holds here before

theorem fail (error : ε) : Ensures pre post (Reader.fail error : Reader ε β σ α) := by
  intro input here a next _ read
  cases read

theorem ofExcept {x : Except ε α} (holds : ∀ a here, x = .ok a → pre here → post a here) :
    Ensures pre post (Reader.ofExcept x : Reader ε β σ α) := by
  cases x with
  | ok a => exact pure fun here => holds a here rfl
  | error error => exact fail error

theorem bind {x : Reader ε β σ α} {f : α → Reader ε β σ γ} {last : γ → Cursor σ → Prop} (first : Ensures pre post x)
    (second : ∀ a, Ensures (post a) last (f a)) : Ensures pre last (x >>= f) := by
  intro input here c next before read
  obtain ⟨a, between, start, rest⟩ := bind_returns.mp read
  exact second a input between c next (first input here a between before start) rest

theorem notes {post : σ → Cursor σ → Prop} (holds : ∀ here, pre here → post here.notes here) :
    Ensures pre post (Reader.notes : Reader ε β σ σ) := by
  intro input here a next before read
  cases read
  exact holds here before

theorem note {update : σ → σ} {post : Unit → Cursor σ → Prop}
    (holds : ∀ here, pre here → post () { here with notes := update here.notes }) :
    Ensures pre post (Reader.note update : Reader ε β σ Unit) := by
  intro input here a next before read
  cases read
  exact holds here before

theorem position {post : Nat → Cursor σ → Prop} (holds : ∀ here, pre here → post here.position here) :
    Ensures pre post (Reader.position : Reader ε β σ Nat) := by
  intro input here a next before read
  cases read
  exact holds here before

theorem take {error : ε} {count : Nat} {post : List β → Cursor σ → Prop}
    (holds : ∀ items here, pre here → post items { here with position := here.position + count }) :
    Ensures pre post (Reader.take error count : Reader ε β σ (List β)) := by
  intro input here items next before read
  obtain ⟨_, _, rfl⟩ := take_returns.mp read
  exact holds items here before

theorem unwrap {x : Reader ε β σ α} (holds : Ensures pre post x) : Ensures pre post (Reader.unwrap x) := by
  intro input here a next before read
  exact holds input here a next before (unwrap_returns.mp read)

theorem mapError {error : ε} {x : Reader ε β σ α} (holds : Ensures pre post x) :
    Ensures pre post (Reader.mapError error x) := by
  intro input here a next before read
  exact holds input here a next before (mapError_returns.mp read)

theorem imp {x : Reader ε β σ α} {stronger : Cursor σ → Prop} {weaker : α → Cursor σ → Prop} (holds : Ensures pre post x)
    (before : ∀ here, stronger here → pre here) (after : ∀ a here, post a here → weaker a here) :
    Ensures stronger weaker x := by
  intro input here a next start read
  exact after a next (holds input here a next (before here start) read)

end Ensures
end Reader
end Panopticon.Library
