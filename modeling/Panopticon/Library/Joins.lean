import Mathlib

/-! Joins of the elements that keep an invariant, read as least upper bounds of an order. -/

namespace Panopticon.Library.Joins

structure Laws (valid : α → Prop) (le : α → α → Prop) (join : α → α → α) (bottom : α) : Prop where
  refl : ∀ a, le a a
  trans : ∀ {a b c}, le a b → le b c → le a c
  antisymm : ∀ {a b}, valid a → valid b → le a b → le b a → a = b
  bottom_valid : valid bottom
  bottom_le : ∀ a, le bottom a
  join_valid : ∀ {a b}, valid a → valid b → valid (join a b)
  left : ∀ {a b}, valid a → valid b → le a (join a b)
  right : ∀ {a b}, valid a → valid b → le b (join a b)
  least : ∀ {a b c}, valid a → valid b → valid c → le a c → le b c → le (join a b) c

variable {valid : α → Prop} {le : α → α → Prop} {join : α → α → α} {bottom : α} (laws : Laws valid le join bottom)
include laws

theorem join_eq_right {a b : α} (validA : valid a) (validB : valid b) : join a b = b ↔ le a b := by
  constructor
  · intro same
    have below := laws.left validA validB
    rwa [same] at below
  · intro below
    apply laws.antisymm (laws.join_valid validA validB) validB
    · exact laws.least validA validB validB below (laws.refl b)
    · exact laws.right validA validB

theorem join_upper {a b : α} (validA : valid a) (validB : valid b) :
    join a (join a b) = join a b ∧ join b (join a b) = join a b := by
  have both := laws.join_valid validA validB
  constructor
  · exact (join_eq_right laws validA both).mpr (laws.left validA validB)
  · exact (join_eq_right laws validB both).mpr (laws.right validA validB)

/-- A fold stays valid, and is above where it started and above all it went through. -/
theorem foldl_upper (xs : List α) (acc : α) (valids : ∀ x ∈ xs, valid x) (validAcc : valid acc) :
    valid (xs.foldl join acc) ∧ le acc (xs.foldl join acc) ∧ ∀ x ∈ xs, le x (xs.foldl join acc) := by
  induction xs generalizing acc with
  | nil => exact ⟨validAcc, laws.refl acc, fun x member => absurd member (List.not_mem_nil)⟩
  | cons y rest ih =>
    have validY := valids y List.mem_cons_self
    obtain ⟨validRest, above, members⟩ :=
      ih (join acc y) (fun x member => valids x (List.mem_cons_of_mem y member)) (laws.join_valid validAcc validY)
    refine ⟨validRest, laws.trans (laws.left validAcc validY) above, fun x member => ?_⟩
    rcases List.mem_cons.mp member with rfl | member
    · exact laws.trans (laws.right validAcc validY) above
    · exact members x member

/-- The least of the valid elements above a set. -/
structure Least (valid : α → Prop) (le : α → α → Prop) (s : Set α) (a : α) : Prop where
  inside : valid a
  upper : ∀ b ∈ s, le b a
  least : ∀ c, valid c → (∀ b ∈ s, le b c) → le a c

theorem least_singleton {a : α} (validA : valid a) : Least valid le {a} a :=
  ⟨validA, fun _ member => Set.mem_singleton_iff.mp member ▸ laws.refl a, fun _ _ upper => upper a (Set.mem_singleton a)⟩

theorem exists_lt (several : ∃ a b, valid a ∧ valid b ∧ a ≠ b) : ∃ a b, valid a ∧ valid b ∧ le a b ∧ ¬le b a := by
  obtain ⟨a, b, validA, validB, other⟩ := several
  have both := laws.join_valid validA validB
  by_cases top : le (join a b) a
  · refine ⟨b, a, validB, validA, laws.trans (laws.right validA validB) top, fun below => ?_⟩
    exact other (laws.antisymm validA validB below (laws.trans (laws.right validA validB) top))
  · exact ⟨a, join a b, validA, both, laws.left validA validB, top⟩

end Panopticon.Library.Joins
