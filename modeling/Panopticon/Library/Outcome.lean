import Mathlib

/-! Results of code that returns, answers with an error, panics or, in the model,
runs out of fuel. Only a loop or a recursion with an explicit bound is ever
`exhausted`. -/

namespace Panopticon.Library

inductive Outcome (ε α : Type) where
  | returns (value : α)
  | fails (error : ε)
  | panics
  | exhausted
  deriving DecidableEq, Repr

namespace Outcome
variable {ε α β δ σ : Type}

def bind (x : Outcome ε α) (f : α → Outcome ε β) : Outcome ε β :=
  match x with
  | .returns value => f value
  | .fails error => .fails error
  | .panics => .panics
  | .exhausted => .exhausted

instance : Monad (Outcome ε) where
  pure := .returns
  bind := bind

/-- `Option::unwrap`, and indexing of a map. -/
def unwrap : Option α → Outcome ε α
  | some value => .returns value
  | none => .panics

/-- The `?` operator on a result, with the error to answer. -/
def ofExcept : Except ε α → Outcome ε α
  | .ok value => .returns value
  | .error error => .fails error

/-- Collects the results of `f` in order. -/
def each (f : α → Outcome ε β) : List α → Outcome ε (List β)
  | [] => .returns []
  | a :: rest => do
    let b ← f a
    let bs ← each f rest
    return b :: bs

/-- Runs `f` over a list with a state that every element may change. -/
def fold (f : σ → α → Outcome ε σ) : σ → List α → Outcome ε σ
  | state, [] => .returns state
  | state, a :: rest => do
    let state ← f state a
    fold f state rest

/-- Rewrites a list in place with a state that every element may change, and stops
at the first element that asks for it. -/
def rewrite (f : σ → α → Outcome ε (σ × α × Option δ)) : σ → List α → Outcome ε (σ × List α × Option δ)
  | state, [] => .returns (state, [], none)
  | state, a :: rest => do
    match ← f state a with
    | (state, b, some stop) => return (state, b :: rest, some stop)
    | (state, b, none) =>
      let (state, bs, stop) ← rewrite f state rest
      return (state, b :: bs, stop)

/-- Repeats a body until it answers `none`. -/
def repeated (body : Nat → σ → Outcome ε (Option σ)) : (fuel turn : Nat) → σ → Outcome ε σ
  | 0, _, _ => .exhausted
  | fuel + 1, turn, state => do
    match ← body turn state with
    | none => return state
    | some next => repeated body fuel (turn + 1) next

@[simp] theorem pure_eq (value : α) : (pure value : Outcome ε α) = .returns value := rfl

@[simp] theorem returns_bind (value : α) (f : α → Outcome ε β) : (returns value >>= f) = f value := rfl

@[simp] theorem fails_bind (error : ε) (f : α → Outcome ε β) : (fails error >>= f) = .fails error := rfl

@[simp] theorem panics_bind (f : α → Outcome ε β) : ((panics : Outcome ε α) >>= f) = .panics := rfl

@[simp] theorem bind_eq_returns {x : Outcome ε α} {f : α → Outcome ε β} {b : β} :
    (x >>= f) = .returns b ↔ ∃ a, x = .returns a ∧ f a = .returns b := by
  cases x <;> simp [Bind.bind, Outcome.bind]

@[simp] theorem unwrap_eq_returns {x : Option α} {a : α} : (unwrap x : Outcome ε α) = .returns a ↔ x = some a := by
  cases x <;> simp [unwrap]

@[simp] theorem ofExcept_eq_returns {x : Except ε α} {a : α} : ofExcept x = .returns a ↔ x = .ok a := by
  cases x <;> simp [ofExcept]

theorem except_bind_eq_ok {x : Except ε α} {f : α → Except ε β} {b : β} : x >>= f = .ok b ↔ ∃ a, x = .ok a ∧ f a = .ok b := by
  cases x <;> simp [Bind.bind, Except.bind]

/-- The value returned, if any. -/
def value? : Outcome ε α → Option α
  | .returns value => some value
  | _ => none

theorem exists_of_value? {x : Outcome ε α} {p : α → Bool} (found : x.value?.any p = true) :
    ∃ value, x = .returns value ∧ p value = true := by
  cases x with
  | returns value => exact ⟨value, rfl, by simpa [value?] using found⟩
  | fails => cases found
  | panics => cases found
  | exhausted => cases found

/-- Results of `each` correspond to the elements one by one. -/
theorem each_eq_returns {f : α → Outcome ε β} {as : List α} {bs : List β} :
    each f as = .returns bs ↔ List.Forall₂ (fun a b => f a = .returns b) as bs := by
  induction as generalizing bs with
  | nil => simp [each, eq_comm]
  | cons a as ih =>
    simp only [each, bind_eq_returns, pure_eq, returns.injEq, ih, List.forall₂_cons_left_iff]
    constructor
    · intro holds
      obtain ⟨b, first, rest, results, same⟩ := holds
      exact ⟨b, rest, first, results, same.symm⟩
    · intro holds
      obtain ⟨b, rest, first, results, same⟩ := holds
      exact ⟨b, first, rest, results, same.symm⟩

theorem mem_each {f : α → Outcome ε β} {as : List α} {bs : List β} (results : each f as = .returns bs) (b : β) :
    b ∈ bs ↔ ∃ a ∈ as, f a = .returns b := by
  induction as generalizing bs with
  | nil =>
    simp only [each, returns.injEq] at results
    simp [← results]
  | cons a as ih =>
    simp only [each, bind_eq_returns, pure_eq, returns.injEq] at results
    obtain ⟨first, found, rest, results, rfl⟩ := results
    simp [ih results, found, eq_comm]

theorem each_append {f : α → Outcome ε β} {as as' : List α} {bs bs' : List β} (first : each f as = .returns bs)
    (second : each f as' = .returns bs') : each f (as ++ as') = .returns (bs ++ bs') := by
  induction as generalizing bs with
  | nil =>
    cases first
    exact second
  | cons a as ih =>
    simp only [each, bind_eq_returns, pure_eq, returns.injEq] at first
    obtain ⟨b, found, rest, results, rfl⟩ := first
    simp [each, found, ih results]

theorem fold_append {f : σ → α → Outcome ε σ} {first last : List α} {state middle : σ}
    (finished : fold f state first = .returns middle) : fold f state (first ++ last) = fold f middle last := by
  induction first generalizing state with
  | nil =>
    simp only [fold, returns.injEq] at finished
    rw [finished, List.nil_append]
  | cons item first ih =>
    simp only [fold, bind_eq_returns] at finished
    obtain ⟨next, step, rest⟩ := finished
    simp only [List.cons_append, fold, step, returns_bind, ih rest]

theorem fold_invariant {f : σ → α → Outcome ε σ} (invariant : σ → Prop) {items : List α}
    (preserved : ∀ state item next, item ∈ items → invariant state → f state item = .returns next → invariant next)
    {state final : σ} (holds : invariant state) (finished : fold f state items = .returns final) :
    invariant final := by
  induction items generalizing state with
  | nil =>
    simp only [fold, returns.injEq] at finished
    exact finished ▸ holds
  | cons item items ih =>
    simp only [fold, bind_eq_returns] at finished
    obtain ⟨next, step, rest⟩ := finished
    refine ih ?_ (preserved state item next (by simp) holds step) rest
    intro state item next member
    exact preserved state item next (by simp [member])

/-- What every turn preserves holds when the body answers `none`. -/
theorem repeated_invariant {body : Nat → σ → Outcome ε (Option σ)} (invariant : σ → Prop)
    (preserved : ∀ turn state next, invariant state → body turn state = .returns (some next) → invariant next)
    {fuel turn : Nat} {state final : σ} (holds : invariant state)
    (finished : repeated body fuel turn state = .returns final) :
    invariant final ∧ ∃ last, body last final = .returns none := by
  induction fuel generalizing turn state with
  | zero => cases finished
  | succ fuel ih =>
    simp only [repeated, bind_eq_returns] at finished
    obtain ⟨answer, step, rest⟩ := finished
    cases answer with
    | none =>
      simp only [pure_eq, returns.injEq] at rest
      subst final
      exact ⟨holds, turn, step⟩
    | some next => exact ih (preserved turn state next holds step) rest

theorem repeated_mono {body : Nat → σ → Outcome ε (Option σ)} {fuel more turn : Nat} {state final : σ}
    (finished : repeated body fuel turn state = .returns final) (less : fuel ≤ more) :
    repeated body more turn state = .returns final := by
  induction fuel generalizing more turn state with
  | zero => cases finished
  | succ fuel ih =>
    obtain ⟨more, rfl⟩ := Nat.exists_eq_succ_of_ne_zero (show more ≠ 0 by omega)
    simp only [repeated, bind_eq_returns] at finished ⊢
    obtain ⟨answer, step, rest⟩ := finished
    refine ⟨answer, step, ?_⟩
    cases answer with
    | none => exact rest
    | some next => exact ih rest (by omega)

theorem each_returns {f : α → Outcome ε β} {as : List α} (step : ∀ a ∈ as, ∃ b, f a = .returns b) :
    ∃ bs, each f as = .returns bs := by
  induction as with
  | nil => exact ⟨[], rfl⟩
  | cons a as ih =>
    obtain ⟨b, first⟩ := step a List.mem_cons_self
    obtain ⟨bs, rest⟩ := ih (fun c member => step c (List.mem_cons_of_mem _ member))
    exact ⟨b :: bs, by simp [each, first, rest]⟩

/-- A fold returns when each step does, under an invariant about what is left to do. -/
theorem fold_returns {f : σ → α → Outcome ε σ} (invariant : List α → σ → Prop)
    (step : ∀ item rest state, invariant (item :: rest) state →
      ∃ next, f state item = .returns next ∧ invariant rest next)
    (items : List α) (state : σ) (holds : invariant items state) :
    ∃ final, fold f state items = .returns final ∧ invariant [] final := by
  induction items generalizing state with
  | nil => exact ⟨state, rfl, holds⟩
  | cons item items ih =>
    obtain ⟨next, stepped, kept⟩ := step item items state holds
    obtain ⟨final, finished, last⟩ := ih next kept
    exact ⟨final, by simp [fold, stepped, finished], last⟩

theorem fold_collects {f : List β → α → Outcome ε (List β)} {adds : α → β → Prop} {items : List α}
    (step : ∀ item ∈ items, ∀ found, ∃ next, f found item = .returns next ∧ ∀ b, b ∈ next ↔ b ∈ found ∨ adds item b)
    (found : List β) :
    ∃ final, fold f found items = .returns final ∧ ∀ b, b ∈ final ↔ b ∈ found ∨ ∃ item ∈ items, adds item b := by
  induction items generalizing found with
  | nil => exact ⟨found, rfl, by simp⟩
  | cons item items ih =>
    obtain ⟨next, stepped, here⟩ := step item List.mem_cons_self found
    obtain ⟨final, finished, later⟩ := ih (fun item member => step item (List.mem_cons_of_mem _ member)) next
    refine ⟨final, by simp [fold, stepped, finished], fun b => ?_⟩
    rw [later, here, List.exists_mem_cons_iff, or_assoc]

/-- A loop with enough fuel returns when its turns do and cannot go on after `bound` of them. -/
theorem repeated_returns (body : Nat → σ → Outcome ε (Option σ)) (bound : Nat) (invariant : Nat → σ → Prop)
    (progress : ∀ turn state, invariant turn state → body turn state = .returns none ∨
      ∃ next, body turn state = .returns (some next) ∧ invariant (turn + 1) next ∧ turn < bound)
    (fuel : Nat) {turn : Nat} (state : σ) (holds : invariant turn state) (inside : turn ≤ bound)
    (enough : bound < fuel + turn) :
    ∃ final, repeated body fuel turn state = .returns final ∧
      ∃ last, invariant last final ∧ body last final = .returns none := by
  induction fuel generalizing turn state with
  | zero => omega
  | succ fuel ih =>
    rcases progress turn state holds with stopped | ⟨next, moved, kept, below⟩
    · exact ⟨state, by simp [repeated, stopped], turn, holds, stopped⟩
    · obtain ⟨final, finished, last⟩ := ih next kept below (by omega)
      exact ⟨final, by simp [repeated, moved, finished], last⟩

/-- A loop whose turns go down in a well-founded order comes to an end, with any fuel that is large enough. -/
theorem repeated_halts (body : Nat → σ → Outcome ε (Option σ)) {below : σ → σ → Prop} (founded : WellFounded below)
    (invariant : σ → Prop)
    (progress : ∀ turn state, invariant state → body turn state = .returns none ∨
      ∃ next, body turn state = .returns (some next) ∧ invariant next ∧ below next state)
    (turn : Nat) (state : σ) (holds : invariant state) :
    ∃ bound final, (∀ fuel, bound ≤ fuel → repeated body fuel turn state = .returns final) ∧ invariant final ∧
      ∃ last, body last final = .returns none := by
  induction state using founded.induction generalizing turn with
  | _ state ih =>
    rcases progress turn state holds with stopped | ⟨next, moved, kept, down⟩
    · refine ⟨1, state, fun fuel enough => ?_, holds, turn, stopped⟩
      obtain ⟨fuel, rfl⟩ := Nat.exists_eq_succ_of_ne_zero (show fuel ≠ 0 by omega)
      simp [repeated, stopped]
    · obtain ⟨bound, final, finished, rest⟩ := ih next down (turn + 1) kept
      refine ⟨bound + 1, final, fun fuel enough => ?_, rest⟩
      obtain ⟨fuel, rfl⟩ := Nat.exists_eq_succ_of_ne_zero (show fuel ≠ 0 by omega)
      simp [repeated, moved, finished fuel (by omega)]

theorem bind_eq_fails {x : Outcome ε α} {f : α → Outcome ε β} {error : ε} :
    (x >>= f) = .fails error ↔ x = .fails error ∨ ∃ a, x = .returns a ∧ f a = .fails error := by
  cases x <;> simp [Bind.bind, Outcome.bind]

theorem fold_fails {f : σ → α → Outcome ε σ} (invariant : σ → Prop) {items : List α}
    (preserved : ∀ state item next, item ∈ items → invariant state → f state item = .returns next → invariant next)
    {state : σ} {error : ε} (holds : invariant state) (failed : fold f state items = .fails error) :
    ∃ state item, item ∈ items ∧ invariant state ∧ f state item = .fails error := by
  induction items generalizing state with
  | nil => cases failed
  | cons item items ih =>
    simp only [fold, bind_eq_fails] at failed
    rcases failed with here | ⟨next, step, later⟩
    · exact ⟨state, item, List.mem_cons_self, holds, here⟩
    · obtain ⟨last, culprit, member, kept, failed⟩ := ih
        (fun state item next member => preserved state item next (List.mem_cons_of_mem _ member))
        (preserved state item next List.mem_cons_self holds step) later
      exact ⟨last, culprit, List.mem_cons_of_mem _ member, kept, failed⟩

theorem repeated_fails {body : Nat → σ → Outcome ε (Option σ)} (invariant : σ → Prop)
    (preserved : ∀ turn state next, invariant state → body turn state = .returns (some next) → invariant next)
    {fuel turn : Nat} {state : σ} {error : ε} (holds : invariant state)
    (failed : repeated body fuel turn state = .fails error) :
    ∃ turn state, invariant state ∧ body turn state = .fails error := by
  induction fuel generalizing turn state with
  | zero => cases failed
  | succ fuel ih =>
    simp only [repeated, bind_eq_fails] at failed
    rcases failed with here | ⟨answer, step, later⟩
    · exact ⟨turn, state, holds, here⟩
    · cases answer with
      | none => cases later
      | some next => exact ih (preserved turn state next holds step) later

/-- Code without error exits. -/
def Unfailing (x : Outcome ε α) : Prop := ∀ error, x ≠ .fails error

theorem Unfailing.returns (a : α) : Unfailing (.returns a : Outcome ε α) := by
  intro error failed
  cases failed

theorem Unfailing.panics : Unfailing (.panics : Outcome ε α) := by
  intro error failed
  cases failed

theorem Unfailing.unwrap (x : Option α) : Unfailing (.unwrap x : Outcome ε α) := by
  intro error failed
  cases x <;> cases failed

theorem Unfailing.bind {x : Outcome ε α} {f : α → Outcome ε β} (first : Unfailing x) (second : ∀ a, Unfailing (f a)) :
    Unfailing (x >>= f) := by
  intro error failed
  rcases bind_eq_fails.mp failed with here | ⟨a, -, later⟩
  · exact first error here
  · exact second a error later

theorem Unfailing.each {f : α → Outcome ε β} {as : List α} (step : ∀ a, Unfailing (f a)) : Unfailing (each f as) := by
  induction as with
  | nil => exact .returns _
  | cons a as ih => exact (step a).bind fun _ => ih.bind fun _ => .returns _

theorem Unfailing.rewrite {f : σ → α → Outcome ε (σ × α × Option δ)} (step : ∀ state a, Unfailing (f state a)) (state : σ)
    (as : List α) : Unfailing (rewrite f state as) := by
  induction as generalizing state with
  | nil => exact .returns _
  | cons a as ih =>
    refine (step state a).bind fun result => ?_
    obtain ⟨next, b, stop⟩ := result
    cases stop with
    | some stop => exact .returns _
    | none => exact (ih next).bind fun _ => .returns _

theorem Unfailing.fold {f : σ → α → Outcome ε σ} (step : ∀ state item, Unfailing (f state item)) (state : σ) (items : List α) :
    Unfailing (fold f state items) := by
  intro error failed
  obtain ⟨state, item, -, -, failed⟩ := fold_fails (fun _ => True) (fun _ _ _ _ _ _ => trivial) trivial failed
  exact step state item error failed

theorem Unfailing.repeated {body : Nat → σ → Outcome ε (Option σ)} (step : ∀ turn state, Unfailing (body turn state))
    (fuel turn : Nat) (state : σ) : Unfailing (repeated body fuel turn state) := by
  intro error failed
  obtain ⟨turn, state, -, failed⟩ := repeated_fails (fun _ => True) (fun _ _ _ _ _ => trivial) trivial failed
  exact step turn state error failed

/-- Answers with a value or an error. -/
def Settles : Outcome ε α → Prop
  | .returns _ | .fails _ => True
  | .panics | .exhausted => False

instance (x : Outcome ε α) : Decidable x.Settles :=
  match x with
  | .returns _ | .fails _ => isTrue trivial
  | .panics | .exhausted => isFalse id

@[simp] theorem settles_returns (a : α) : (returns a : Outcome ε α).Settles := trivial

@[simp] theorem settles_fails (error : ε) : (fails error : Outcome ε α).Settles := trivial

@[simp] theorem not_settles_panics : ¬(panics : Outcome ε α).Settles := id

@[simp] theorem not_settles_exhausted : ¬(exhausted : Outcome ε α).Settles := id

@[simp] theorem settles_ofExcept (x : Except ε α) : (ofExcept x).Settles := by
  cases x <;> trivial

theorem settles_bind {x : Outcome ε α} {f : α → Outcome ε β} :
    (x >>= f).Settles ↔ x.Settles ∧ ∀ a, x = .returns a → (f a).Settles := by
  cases x <;> simp [Bind.bind, Outcome.bind]

theorem Settles.bind {x : Outcome ε α} {f : α → Outcome ε β} (first : x.Settles)
    (second : ∀ a, x = .returns a → (f a).Settles) : (x >>= f).Settles :=
  settles_bind.mpr ⟨first, second⟩

theorem settles_unwrap {x : Option α} (known : x.isSome = true) : (unwrap x : Outcome ε α).Settles := by
  obtain ⟨a, rfl⟩ := Option.isSome_iff_exists.mp known
  trivial

theorem settles_item_bind {items : List α} {i : Nat} {f : α → Outcome ε β} {p : Prop} (rest : ∀ a, (f a).Settles ↔ p) :
    (unwrap items[i]? >>= f).Settles ↔ i < items.length ∧ p := by
  cases found : items[i]? with
  | none => simp [unwrap, List.getElem?_eq_none_iff.mp found]
  | some a => simp [unwrap, rest a, (List.getElem?_eq_some_iff.mp found).1]

/-- Every value returned satisfies `post`, and every error `err`. -/
def Ensures (post : α → Prop) (err : ε → Prop) : Outcome ε α → Prop
  | .returns value => post value
  | .fails error => err error
  | .panics => True
  | .exhausted => True

namespace Ensures
variable {err : ε → Prop}

theorem value {post : α → Prop} {x : Outcome ε α} {a : α} (ensures : Ensures post err x) (returned : x = .returns a) :
    post a := by
  subst x
  exact ensures

theorem error {post : α → Prop} {x : Outcome ε α} {e : ε} (ensures : Ensures post err x) (failed : x = .fails e) :
    err e := by
  subst x
  exact ensures

theorem quiet {x : Outcome ε α} (unfailing : Unfailing x) : Ensures (fun _ => True) err x := by
  cases x with
  | fails error => exact absurd rfl (unfailing error)
  | _ => trivial

theorem bind {x : Outcome ε α} {f : α → Outcome ε β} {middle : α → Prop} {post : β → Prop}
    (first : Ensures middle err x) (second : ∀ a, middle a → Ensures post err (f a)) : Ensures post err (x >>= f) := by
  cases x with
  | returns value => exact second value first
  | fails error => exact first
  | panics => trivial
  | exhausted => trivial

theorem fold {f : σ → α → Outcome ε σ} (invariant : σ → Prop)
    (step : ∀ state item, invariant state → Ensures invariant err (f state item)) {state : σ} (holds : invariant state)
    (items : List α) : Ensures invariant err (Outcome.fold f state items) := by
  induction items generalizing state with
  | nil => exact holds
  | cons item items ih => exact (step state item holds).bind fun _ kept => ih kept

theorem repeated {body : Nat → σ → Outcome ε (Option σ)} (invariant : σ → Prop)
    (step : ∀ turn state, invariant state → Ensures (fun next => ∀ s ∈ next, invariant s) err (body turn state))
    {state : σ} (holds : invariant state) (fuel turn : Nat) :
    Ensures invariant err (Outcome.repeated body fuel turn state) := by
  induction fuel generalizing turn state with
  | zero => trivial
  | succ fuel ih =>
    refine (step turn state holds).bind fun answer kept => ?_
    cases answer with
    | none => exact holds
    | some next => exact ih (kept next rfl) (turn + 1)

end Ensures

end Outcome

section
variable {ε σ α : Type}

/-- What every step keeps, and either holds before or is established by one of the elements, holds after. -/
theorem foldlM_establishes {f : σ → α → Except ε σ} (property : σ → Prop)
    (kept : ∀ state a next, property state → f state a = .ok next → property next) {as : List α} {state final : σ}
    (folded : as.foldlM f state = .ok final)
    (cause : property state ∨ ∃ a ∈ as, ∀ before after, f before a = .ok after → property after) : property final := by
  induction as generalizing state with
  | nil =>
    cases folded
    exact cause.resolve_right (by simp)
  | cons a as ih =>
    rw [List.foldlM_cons] at folded
    cases step : f state a with
    | error error => simp [step, bind, Except.bind] at folded
    | ok next =>
      simp only [step, bind, Except.bind] at folded
      refine ih folded ?_
      rcases cause with holds | ⟨b, member, establishes⟩
      · exact .inl (kept state a next holds step)
      · rcases List.mem_cons.mp member with rfl | member
        · exact .inl (establishes state next step)
        · exact .inr ⟨b, member, establishes⟩

/-- Where it depends on the element alone whether a step fails, a fold fails on one bad element. -/
theorem foldlM_error_iff {f : σ → α → Except ε σ} {bad : α → Prop}
    (step : ∀ state a, (∃ error, f state a = .error error) ↔ bad a) {as : List α} {state : σ} :
    (∃ error, as.foldlM f state = .error error) ↔ ∃ a ∈ as, bad a := by
  induction as generalizing state with
  | nil => simp [pure, Except.pure]
  | cons a as ih =>
    rw [List.foldlM_cons, List.exists_mem_cons_iff, ← step state a]
    cases result : f state a with
    | error error => simp [bind, Except.bind]
    | ok next => simpa [bind, Except.bind] using ih

end

end Panopticon.Library
