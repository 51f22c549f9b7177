import Mathlib

/-! Finite sets as lists in ascending order. Two such lists with the same members are equal, so that sorting
is a canonical form whatever order the members came in. -/

namespace Panopticon.Library.Canonical

variable {α : Type u} (r : α → α → Prop)

/-- Ascending, and nothing twice. -/
def Ascending (v : List α) : Prop := v.Pairwise r ∧ v.Nodup

variable {r} in
theorem Ascending.filter {v : List α} (ascending : Ascending r v) (p : α → Bool) : Ascending r (v.filter p) :=
  ⟨ascending.1.filter p, ascending.2.filter p⟩

theorem ascending_singleton (x : α) : Ascending r [x] := ⟨List.pairwise_singleton r x, List.nodup_singleton x⟩

variable {r} in
theorem Ascending.eq [Std.Antisymm r] {v w : List α} (left : Ascending r v) (right : Ascending r w)
    (same : ∀ x, x ∈ v ↔ x ∈ w) : v = w :=
  ((List.perm_ext_iff_of_nodup left.2 right.2).mpr same).eq_of_pairwise' left.1 right.1

variable [DecidableRel r] [Std.Total r] [IsTrans α r]

theorem ascending_sort {xs : List α} (nodup : xs.Nodup) : Ascending r (xs.insertionSort r) :=
  ⟨List.pairwise_insertionSort r xs, (List.perm_insertionSort r xs).nodup_iff.mpr nodup⟩

variable [DecidableEq α]

/-- The set of the members of a list. -/
def canonical (xs : List α) : List α := xs.dedup.insertionSort r

theorem ascending_canonical (xs : List α) : Ascending r (canonical r xs) := ascending_sort r xs.nodup_dedup

omit [Std.Total r] [IsTrans α r] in
@[simp] theorem mem_canonical {xs : List α} {x : α} : x ∈ canonical r xs ↔ x ∈ xs := by
  simp [canonical]

omit [Std.Total r] [IsTrans α r] in
theorem length_canonical (xs : List α) : (canonical r xs).length = xs.dedup.length := List.length_insertionSort r _

omit [Std.Total r] [IsTrans α r] in
theorem length_canonical_le {xs ys : List α} (subset : xs ⊆ ys) : (canonical r xs).length ≤ (canonical r ys).length := by
  rw [length_canonical, length_canonical]
  exact (xs.nodup_dedup.subperm fun x member => by simpa using subset (by simpa using member)).length_le

variable [Std.Antisymm r]

theorem sort_eq_canonical {xs ys : List α} (nodup : xs.Nodup) (same : ∀ x, x ∈ xs ↔ x ∈ ys) :
    xs.insertionSort r = canonical r ys :=
  (ascending_sort r nodup).eq (ascending_canonical r ys) (by simpa using same)

theorem canonical_congr {xs ys : List α} (same : ∀ x, x ∈ xs ↔ x ∈ ys) : canonical r xs = canonical r ys :=
  (ascending_canonical r xs).eq (ascending_canonical r ys) (by simpa using same)

variable {r} in
theorem Ascending.canonical_eq {v : List α} (ascending : Ascending r v) : canonical r v = v :=
  (ascending_canonical r v).eq ascending (by simp)

end Panopticon.Library.Canonical
