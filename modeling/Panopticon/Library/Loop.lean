import Mathlib

/-! Loops with an explicit turn counter. The body answers `none` when the loop
condition fails; the loop itself answers `none` only when its fuel runs out, so a
result is the state in which the condition failed. -/

namespace Panopticon.Library

def loop (body : Nat → σ → Option σ) : (fuel turn : Nat) → σ → Option σ
  | 0, _, _ => none
  | fuel + 1, turn, state =>
    match body turn state with
    | none => some state
    | some next => loop body fuel (turn + 1) next

variable {body : Nat → σ → Option σ}

/-- What one turn preserves holds in the final state, where the condition fails. -/
theorem loop_invariant (invariant : σ → Prop)
    (preserved : ∀ turn state next, invariant state → body turn state = some next → invariant next)
    {fuel turn : Nat} {state final : σ} (holds : invariant state)
    (finished : loop body fuel turn state = some final) :
    invariant final ∧ ∃ last, body last final = none := by
  induction fuel generalizing turn state with
  | zero => cases finished
  | succ fuel ih =>
    simp only [loop] at finished
    cases step : body turn state with
    | none =>
      simp only [step, Option.some.injEq] at finished
      subst final
      exact ⟨holds, turn, step⟩
    | some next =>
      simp only [step] at finished
      exact ih (preserved turn state next holds step) finished

theorem loop_terminates (invariant : σ → Prop) (measure : σ → Nat)
    (preserved : ∀ turn state next, invariant state → body turn state = some next → invariant next)
    (decreases : ∀ turn state next, invariant state → body turn state = some next →
      measure next < measure state)
    {state : σ} (turn : Nat) (holds : invariant state) :
    ∃ fuel final, loop body fuel turn state = some final := by
  induction bound : measure state using Nat.strongRecOn generalizing turn state with
  | ind bound ih =>
    cases step : body turn state with
    | none => exact ⟨1, state, by simp [loop, step]⟩
    | some next =>
      have smaller := decreases turn state next holds step
      obtain ⟨fuel, final, finished⟩ :=
        ih (measure next) (bound ▸ smaller) (turn + 1) (preserved turn state next holds step) rfl
      exact ⟨fuel + 1, final, by simp [loop, step, finished]⟩

theorem loop_more_fuel {fuel more turn : Nat} {state final : σ}
    (finished : loop body fuel turn state = some final) (le : fuel ≤ more) :
    loop body more turn state = some final := by
  induction fuel generalizing more turn state with
  | zero => cases finished
  | succ fuel ih =>
    obtain ⟨extra, rfl⟩ := Nat.exists_eq_add_of_le le
    rw [show fuel + 1 + extra = fuel + extra + 1 by omega]
    simp only [loop] at finished ⊢
    cases step : body turn state with
    | none => simpa only [step] using finished
    | some next =>
      simp only [step] at finished ⊢
      exact ih finished (by omega)

/-- The turns of a loop, each with the state it begins in. -/
inductive Turns (body : Nat → σ → Option σ) : (turn : Nat) → σ → List (Nat × σ) → σ → Prop
  | stops {turn : Nat} {state : σ} : body turn state = none → Turns body turn state [] state
  | goes {turn : Nat} {state next final : σ} {turns : List (Nat × σ)} : body turn state = some next →
      Turns body (turn + 1) next turns final → Turns body turn state ((turn, state) :: turns) final

theorem turns_of_loop {fuel turn : Nat} {state final : σ} (finished : loop body fuel turn state = some final) :
    ∃ turns, Turns body turn state turns final := by
  induction fuel generalizing turn state with
  | zero => cases finished
  | succ fuel ih =>
    simp only [loop] at finished
    cases step : body turn state with
    | none =>
      simp only [step, Option.some.injEq] at finished
      exact ⟨[], finished ▸ .stops step⟩
    | some next =>
      simp only [step] at finished
      obtain ⟨turns, run⟩ := ih finished
      exact ⟨_, .goes step run⟩

theorem Turns.total {α : Type*} [AddCommMonoid α] {turn : Nat} {state final : σ} {turns : List (Nat × σ)}
    (run : Turns body turn state turns final) (invariant : σ → Prop) (quantity : σ → α) (amount : Nat × σ → α)
    (step : ∀ turn state next, invariant state → body turn state = some next →
      invariant next ∧ quantity next = quantity state + amount (turn, state))
    (holds : invariant state) : quantity final = quantity state + (turns.map amount).sum := by
  induction run with
  | stops => simp
  | goes moved _ ih =>
    obtain ⟨kept, added⟩ := step _ _ _ holds moved
    rw [ih kept, added, List.map_cons, List.sum_cons, add_assoc]

end Panopticon.Library
