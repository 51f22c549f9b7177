import Mathlib

/-! Iteration over hash tables. A table is kept in canonical form, and every place
where the program iterates over one takes an `Enumeration`, which may rearrange
the entries in any way. Results that hold for every enumeration do not depend on
the hasher, on the insertion history or on the capacity of the table. -/

namespace Panopticon.Library

structure Enumeration (α : Type u) where
  list : List α → List α
  perm : ∀ entries, (list entries).Perm entries

namespace Enumeration

/-- The canonical order itself. -/
def canonical : Enumeration α := ⟨id, fun _ => .refl _⟩

/-- The canonical order backwards. -/
def reversed : Enumeration α := ⟨List.reverse, List.reverse_perm⟩

/-- Two given entries first, where both are there. -/
def startingWith [DecidableEq α] (a b : α) : Enumeration α where
  list entries := if a ∈ entries ∧ b ∈ entries.erase a then a :: b :: (entries.erase a).erase b else entries
  perm entries := by
    split
    · next found =>
      exact (((List.perm_cons_erase found.2).cons a).symm).trans (List.perm_cons_erase found.1).symm
    · exact .refl _

@[simp] theorem mem_list (order : Enumeration α) (entries : List α) (value : α) :
    value ∈ order.list entries ↔ value ∈ entries := (order.perm entries).mem_iff

@[simp] theorem length_list (order : Enumeration α) (entries : List α) :
    (order.list entries).length = entries.length := (order.perm entries).length_eq

end Enumeration
end Panopticon.Library
