import Mathlib

/-! Chains without common elements, kept as rings. Every element but the last of a chain points
to the next one, the last one to the first, and every element knows the first. A chain grows
at its end, by an element that was alone. -/

namespace Panopticon.Library
open Relation

variable {α : Type}

/-- `next` makes chains that rise by one level at a time, `root` is the first element of each, and `align` closes them. -/
structure Rings (level : α → Nat) (next : α → Option α) (root align : α → α) : Prop where
  injective : ∀ u u' v, next u = some v → next u' = some v → u = u'
  rises : ∀ u v, next u = some v → level v = level u + 1
  first : ∀ v, (∀ u, next u ≠ some v) → root v = v
  later : ∀ u v, next u = some v → root v = root u
  closed : ∀ u, align u = (next u).getD (root u)

/-- `v` is `u` or comes after it in a chain. -/
def Onward (next : α → Option α) : α → α → Prop := ReflTransGen fun u v => next u = some v

namespace Rings
variable {level : α → Nat} {next : α → Option α} {root align : α → α} {u v : α}

theorem alone (level : α → Nat) : Rings level (fun _ => none) id id := by
  constructor <;> simp

theorem level_le (rings : Rings level next root align) (path : Onward next u v) : level u ≤ level v := by
  induction path with
  | refl => exact Nat.le_refl _
  | tail _ last ih =>
    rw [rings.rises _ _ last]
    omega

theorem eq_of_level (rings : Rings level next root align) (path : Onward next u v) (same : level v ≤ level u) : u = v := by
  cases path with
  | refl => rfl
  | tail path last =>
    have below := rings.level_le path
    have above := rings.rises _ _ last
    omega

theorem root_of_path (rings : Rings level next root align) (path : Onward next u v) : root v = root u := by
  induction path with
  | refl => rfl
  | tail _ last ih => rw [rings.later _ _ last, ih]

theorem path_from_root (rings : Rings level next root align) (v : α) : Onward next (root v) v := by
  induction height : level v using Nat.strong_induction_on generalizing v with
  | _ height' ih =>
    by_cases before : ∃ u, next u = some v
    · obtain ⟨u, step⟩ := before
      have rise := rings.rises u v step
      rw [rings.later u v step]
      exact (ih (level u) (by omega) u rfl).tail step
    · rw [rings.first v (fun u step => before ⟨u, step⟩)]
      exact .refl

theorem root_level_le (rings : Rings level next root align) (v : α) : level (root v) ≤ level v :=
  rings.level_le (rings.path_from_root v)

theorem root_root (rings : Rings level next root align) (v : α) : root (root v) = root v :=
  (rings.root_of_path (rings.path_from_root v)).symm

theorem path_of_root_eq (rings : Rings level next root align) (same : root u = root v) (below : level u ≤ level v) :
    Onward next u v := by
  have unique : Relator.RightUnique fun u v => next u = some v := by
    intro w x y left right
    exact Option.some.inj (left.symm.trans right)
  have first := rings.path_from_root u
  rw [same] at first
  rcases ReflTransGen.total_of_right_unique unique first (rings.path_from_root v) with path | path
  · exact path
  · rw [rings.eq_of_level path below]
    exact .refl

theorem eq_of_root (rings : Rings level next root align) (same : root u = root v) (levels : level u = level v) : u = v :=
  rings.eq_of_level (rings.path_of_root_eq same levels.le) levels.ge

theorem next_of_root (rings : Rings level next root align) (same : root u = root v) (levels : level v = level u + 1) :
    next u = some v := by
  cases (rings.path_of_root_eq same (by omega)).cases_head with
  | inl equal =>
    subst equal
    omega
  | inr step =>
    obtain ⟨w, step, rest⟩ := step
    have rise := rings.rises u w step
    rw [step, rings.eq_of_level rest (by omega)]

theorem exists_level (rings : Rings level next root align) (same : root u = root v) (height : Nat) (above : level u ≤ height)
    (below : height ≤ level v) : ∃ w, root w = root u ∧ level w = height := by
  have path := rings.path_of_root_eq same (above.trans below)
  induction path with
  | refl => exact ⟨u, rfl, by omega⟩
  | @tail v w path last ih =>
    by_cases reached : height = level w
    · exact ⟨w, same.symm, reached.symm⟩
    · have rise := rings.rises _ _ last
      exact ih (rings.root_of_path path).symm (by omega)

theorem root_align (rings : Rings level next root align) (u : α) : root (align u) = root u := by
  rw [rings.closed]
  cases step : next u with
  | none => exact rings.root_root u
  | some v => exact rings.later u v step

theorem align_injective (rings : Rings level next root align) : Function.Injective align := by
  intro u v same
  have roots : root u = root v := by rw [← rings.root_align u, ← rings.root_align v, same]
  have last (u v : α) (roots : root u = root v) (ends : next u = none) : level v ≤ level u := by
    by_contra above
    cases (rings.path_of_root_eq roots (by omega)).cases_head with
    | inl equal =>
      subst equal
      omega
    | inr step =>
      obtain ⟨w, step, -⟩ := step
      simp [ends] at step
  have back (u v w : α) (roots : root u = root v) (ends : next u = none) (step : next v = some w) (same : align u = align v) :
      False := by
    rw [rings.closed, rings.closed, ends, step] at same
    have rise := rings.rises v w step
    have low := rings.root_level_le v
    simp only [Option.getD_none, Option.getD_some, roots] at same
    rw [same] at low
    omega
  cases first : next u with
  | none =>
    cases second : next v with
    | none => exact rings.eq_of_root roots (Nat.le_antisymm (last v u roots.symm second) (last u v roots first))
    | some w => exact (back u v w roots first second same).elim
  | some w =>
    cases second : next v with
    | none => exact (back v u w roots.symm second first same.symm).elim
    | some x =>
      rw [rings.closed, rings.closed, first, second] at same
      exact rings.injective u v w first (by simpa [second] using same.symm)

theorem align_eq_self (rings : Rings level next root align) : align v = v ↔ next v = none ∧ ∀ u, next u ≠ some v := by
  rw [rings.closed]
  constructor
  · intro same
    cases step : next v with
    | none =>
      refine ⟨rfl, fun u before => ?_⟩
      have rise := rings.rises u v before
      have low := rings.root_level_le u
      simp only [step, Option.getD_none, rings.later u v before] at same
      rw [same] at low
      omega
    | some w =>
      have rise := rings.rises v w step
      simp only [step, Option.getD_some] at same
      rw [same] at rise
      omega
  · intro holds
    obtain ⟨last, first⟩ := holds
    rw [last]
    exact rings.first v first

section
variable [Finite α]

noncomputable def perm (rings : Rings level next root align) : Equiv.Perm α :=
  Equiv.ofBijective align (Finite.injective_iff_bijective.mp rings.align_injective)

@[simp] theorem perm_apply (rings : Rings level next root align) (u : α) : rings.perm u = align u := rfl

theorem sameCycle_iff (rings : Rings level next root align) : rings.perm.SameCycle u v ↔ root u = root v := by
  constructor
  · intro cycle
    obtain ⟨n, moved⟩ := cycle.exists_nat_pow_eq
    subst moved
    induction n with
    | zero => rfl
    | succ n ih =>
      rw [ih ⟨n, by simp⟩, pow_succ', Equiv.Perm.mul_apply, perm_apply, rings.root_align]
  · intro same
    have along (u v : α) (path : Onward next u v) : rings.perm.SameCycle u v := by
      induction path with
      | refl => exact .refl _ _
      | tail _ last ih => exact ih.trans ⟨1, by simp [rings.closed, last]⟩
    have first := along _ _ (rings.path_from_root u)
    rw [same] at first
    exact first.symm.trans (along _ _ (rings.path_from_root v))

end

theorem link [DecidableEq α] (rings : Rings level next root align) (last : next u = none) (free : align v = v)
    (rise : level v = level u + 1) :
    Rings level (Function.update next u (some v)) (Function.update root v (root u))
      (Function.update (Function.update align u v) v (root u)) := by
  obtain ⟨ends, starts⟩ := rings.align_eq_self.mp free
  have apart : u ≠ v := by
    intro same
    subst same
    omega
  have step (w x : α) : Function.update next u (some v) w = some x ↔ w = u ∧ v = x ∨ w ≠ u ∧ next w = some x := by
    by_cases same : w = u <;> simp [same]
  have kept (w : α) (other : w ≠ v) : Function.update root v (root u) w = root w := Function.update_of_ne other _ _
  constructor
  · intro w w' x first second
    rw [step] at first second
    rcases first with ⟨rfl, rfl⟩ | ⟨-, first⟩ <;> rcases second with ⟨rfl, same⟩ | ⟨-, second⟩
    · rfl
    · exact absurd second (starts w')
    · exact absurd (same ▸ first) (starts w)
    · exact rings.injective w w' x first second
  · intro w x moved
    rcases (step w x).mp moved with ⟨rfl, rfl⟩ | ⟨-, moved⟩
    · exact rise
    · exact rings.rises w x moved
  · intro x before
    have other : x ≠ v := by
      intro same
      exact before u ((step u x).mpr (.inl ⟨rfl, same.symm⟩))
    rw [kept x other]
    apply rings.first
    intro w moved
    by_cases same : w = u
    · simp [same, last] at moved
    · exact before w ((step w x).mpr (.inr ⟨same, moved⟩))
  · intro w x moved
    rcases (step w x).mp moved with ⟨rfl, rfl⟩ | ⟨-, moved⟩
    · rw [kept w apart, Function.update_self]
    · have tail : w ≠ v := by
        intro same
        simp [same, ends] at moved
      have head : x ≠ v := by
        intro same
        exact starts w (same ▸ moved)
      rw [kept w tail, kept x head]
      exact rings.later w x moved
  · intro w
    by_cases same : w = v
    · simp [same, apart.symm, ends]
    · by_cases equal : w = u
      · simp [equal, apart]
      · simp [same, equal, rings.closed]

end Rings
end Panopticon.Library
