import Panopticon.BoundedAddrTrack
import Panopticon.Library.Joins
import Panopticon.Proofs.Kset

/-! The order in which one element of a domain is more exact than another, against the one that the joins define. -/

namespace Panopticon
open Panopticon.Library

namespace BoundedAddrTrack

/-- Offsets below their regions, with `meet` below and `join` above everything. -/
def Le : BoundedAddrTrack → BoundedAddrTrack → Prop
  | .meet, _ => True
  | _, .join => True
  | .region r, .region r' => r = r'
  | .offset r _ _, .region r' => r = r'
  | .offset r v s, .offset r' v' s' => r = r' ∧ v = v' ∧ s = s'
  | _, _ => False

theorem le_refl (a : BoundedAddrTrack) : Le a a := by
  cases a <;> simp [Le]

theorem le_trans {a b c : BoundedAddrTrack} (first : Le a b) (second : Le b c) : Le a c := by
  cases a <;> cases b <;> cases c <;> simp_all [Le]

theorem le_antisymm {a b : BoundedAddrTrack} (first : Le a b) (second : Le b a) : a = b := by
  cases a <;> cases b <;> simp_all [Le]

theorem combine_self (a : BoundedAddrTrack) : combine a a = a := by
  unfold combine
  exact if_pos rfl

private theorem combine_comm (a b : BoundedAddrTrack) : combine a b = combine b a := by
  by_cases same : a = b
  · rw [same]
  · cases a <;> cases b <;> simp only [combine, eq_comm] <;> grind

theorem le_combine_left (a b : BoundedAddrTrack) : Le a (combine a b) := by
  by_cases same : b = a
  · rw [same, combine_self]
    exact le_refl a
  · cases a <;> cases b <;> simp only [combine, if_neg same] <;> (try split_ifs) <;> simp_all [Le]

theorem combine_le {a b c : BoundedAddrTrack} (first : Le a c) (second : Le b c) : Le (combine a b) c := by
  by_cases same : b = a
  · rw [same, combine_self]
    exact first
  · cases a <;> cases b <;> cases c <;> simp only [combine, if_neg same] <;> (try split_ifs) <;> simp_all [Le]

theorem laws : Joins.Laws (fun _ => True) Le combine .meet where
  refl := le_refl
  trans := le_trans
  antisymm _ _ := le_antisymm
  bottom_valid := trivial
  bottom_le _ := trivial
  join_valid _ _ := trivial
  left _ _ := le_combine_left _ _
  right {a b} _ _ := combine_comm a b ▸ le_combine_left b a
  least _ _ _ := combine_le

/-- An offset and a region other than its own. -/
def Astray : BoundedAddrTrack → BoundedAddrTrack → Prop
  | .offset r _ _, .region r' => r ≠ r'
  | _, _ => False

private theorem astray_iff (a b : BoundedAddrTrack) :
    Astray a b ↔ ∃ r v s r', a = .offset r v s ∧ b = .region r' ∧ r ≠ r' := by
  cases a <;> cases b <;> simp [Astray]

theorem Astray.not_le {a b : BoundedAddrTrack} (astray : Astray a b) : a ≠ b ∧ ¬Le a b := by
  cases a <;> cases b <;> simp_all [Le, Astray]

theorem moreExact_iff (a b : BoundedAddrTrack) : moreExact a b = true ↔ a ≠ b ∧ (Le a b ∨ Astray a b) := by
  by_cases same : a = b
  · simp [moreExact, same]
  · cases a <;> cases b <;> simp_all [moreExact, Le, Astray]
    tauto

end BoundedAddrTrack

namespace Kset

theorem laws (order : Enumeration Element) : Joins.Laws WellFormed Le (combine order) .meet where
  refl := Proofs.Kset.le_refl
  trans := Proofs.Kset.le_trans
  antisymm := Proofs.Kset.le_antisymm
  bottom_valid := trivial
  bottom_le _ := trivial
  join_valid := Proofs.Kset.combine_wellFormed order
  left validA _ := Proofs.Kset.le_combine_left order validA
  right _ validB := Proofs.Kset.le_combine_right order validB
  least _ _ validC := Proofs.Kset.combine_le order validC

theorem moreExact_iff (a b : Kset) : moreExact a b = true ↔ a ≠ b ∧ Le b a := by
  by_cases same : a = b
  · subst same
    have equal : a.eq a = true := Proofs.Kset.eq_iff.mpr rfl
    simp [moreExact, equal]
  · have different : a.eq b = false := by
      rw [← Bool.not_eq_true, Proofs.Kset.eq_iff]
      exact same
    cases a <;> cases b <;> simp_all [moreExact, Le, List.subset_def]

private theorem incomparable_iff (a b : Kset) : ¬Le a b ∧ ¬Le b a ↔ ∃ v w, a = .set v ∧ b = .set w ∧ ¬v ⊆ w ∧ ¬w ⊆ v := by
  cases a <;> cases b <;> simp [Le]

end Kset

namespace Proofs.Precision

/-- `moreExact` is the strict order of the joins, in which a join is above both of its operands. -/
def Precise (dom : Avalue A) (a b : A) : Prop :=
  (dom.moreExact a b = true ↔ a ≠ b ∧ dom.combine a b = b) ∧
    dom.combine a (dom.combine a b) = dom.combine a b ∧ dom.combine b (dom.combine a b) = dom.combine a b

section
variable {dom : Avalue A} {valid : A → Prop} {le : A → A → Prop}

theorem precise_iff (laws : Joins.Laws valid le dom.combine dom.initial) {a b : A} (validA : valid a) (validB : valid b) :
    Precise dom a b ↔ (dom.moreExact a b = true ↔ a ≠ b ∧ le a b) := by
  rw [Precise, Joins.join_eq_right laws validA validB]
  exact and_iff_left (Joins.join_upper laws validA validB)

end

theorem precision_iff (order : Enumeration Element) :
    (∀ a b : Kset, a.WellFormed → b.WellFormed →
      (Precise (Kset.domain order) a b ↔ a = b ∨ ∃ v w, a = .set v ∧ b = .set w ∧ ¬v ⊆ w ∧ ¬w ⊆ v)) ∧
    ∀ a b : BoundedAddrTrack, Precise BoundedAddrTrack.domain a b ↔
      ¬∃ r v s r', a = .offset r v s ∧ b = .region r' ∧ r ≠ r' := by
  constructor
  · intro a b validA validB
    have both : Kset.Le a b → Kset.Le b a → a = b := Kset.le_antisymm validA validB
    rw [precise_iff (Kset.laws order) validA validB, ← Kset.incomparable_iff]
    simp only [Kset.domain, Kset.moreExact_iff]
    tauto
  · intro a b
    rw [precise_iff BoundedAddrTrack.laws trivial trivial, ← BoundedAddrTrack.astray_iff]
    simp only [BoundedAddrTrack.domain, BoundedAddrTrack.moreExact_iff]
    constructor
    · intro strict astray
      obtain ⟨different, above⟩ := astray.not_le
      exact above (strict.mp ⟨different, .inr astray⟩).2
    · intro close
      simp only [close, or_false]

/-- `join` is reported to be strictly below `meet`, and an offset below a region it does not point into. -/
theorem not_precise :
    ¬Precise (Kset.domain .canonical) .join .meet ∧
      ¬Precise BoundedAddrTrack.domain (.offset none 0 8) (.region (some ("x", 0))) := by
  refine ⟨fun precise => ?_, fun precise => ?_⟩
  · exact absurd (precise.1.mp (by decide)).2 (by decide)
  · exact absurd (precise.1.mp (by decide)).2 (by decide)

theorem precision_sets : Precise (Kset.domain .canonical) (.set [(1, 8)]) (.set [(2, 8)]) := by
  apply ((precision_iff .canonical).1 _ _ ?_ ?_).mpr
  · exact .inr ⟨_, _, rfl, rfl, by decide, by decide⟩
  · exact Proofs.Kset.reduce_wellFormed 1 8
  · exact Proofs.Kset.reduce_wellFormed 2 8

end Proofs.Precision

end Panopticon
