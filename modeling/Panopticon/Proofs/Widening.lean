import Panopticon.Proofs.Precision
import Panopticon.Widening

/-! When the value of a phi is above those of its operands. -/

namespace Panopticon
open Panopticon.Library

namespace ProgramPoint

private theorem before_iff {p q : ProgramPoint} : p.Before q ↔
    p.address.toNat < q.address.toNat ∨ p.address.toNat = q.address.toNat ∧ p.position < q.position := by
  rw [Before, UInt64.lt_iff_toNat_lt, UInt64.toNat_inj]

private theorem before_max {p q r : ProgramPoint} : p.Before (max q r) ↔ p.Before q ∨ p.Before r := by
  simp only [max, before_iff]
  split_ifs <;> omega

private theorem before_foldl {p q : ProgramPoint} {rest : List ProgramPoint} :
    p.Before (rest.foldl max q) ↔ ∃ r ∈ q :: rest, p.Before r := by
  induction rest generalizing q with
  | nil => simp
  | cons r rest ih =>
    rw [List.foldl_cons, ih]
    simp only [List.mem_cons, exists_eq_or_imp, before_max, or_assoc]

end ProgramPoint

namespace Kset

/-- The members of the operands that are sets. -/
def sets : List Kset → List (List Element)
  | [] => []
  | .set v :: rest => v :: sets rest
  | _ :: rest => sets rest

/-- A set that stays alone has to keep the invariant, and two empty sets in a row cancel out. -/
def Settled : List (List Element) → Prop
  | [] => True
  | [v] => WellFormed (.set v)
  | v :: w :: rest => if v = [] ∧ w = [] then rest ≠ [] ∧ Settled rest else True

end Kset

namespace Proofs.Widening
open Panopticon.Widening (widens)

/-- An operand was recorded at a point after the phi. -/
def Later (pp : ProgramPoint) (ops : List (Widening A)) : Prop :=
  ∃ x ∈ ops, ∃ point, x.point = some point ∧ pp.Before point

theorem widens_iff {pp : ProgramPoint} {ops : List (Widening A)} : widens pp ops = true ↔ Later pp ops := by
  have irrefl : ¬pp.Before pp := by
    rw [ProgramPoint.before_iff]
    omega
  have recorded (x : Widening A) : pp.Before (x.point.getD pp) ↔ ∃ point, x.point = some point ∧ pp.Before point := by
    cases x.point <;> simp [irrefl]
  cases ops with
  | nil => simp [widens, Later, ProgramPoint.latest]
  | cons x rest =>
    simp only [widens, Later, ProgramPoint.latest, List.map_cons, decide_eq_true_eq, ProgramPoint.before_foldl]
    simp only [List.mem_cons, List.mem_map, exists_eq_or_imp, exists_exists_and_eq_and, recorded]

/-- The value of the phi is at least every operand's value. -/
def Bounds (dom : Avalue A) (pp : ProgramPoint) (ops : List (Widening A)) : Prop :=
  ∃ result, Widening.execute dom pp (.phi ops) = .returns result ∧
    ∀ x ∈ ops, dom.combine x.value result.value = result.value

/-- The last operand's value is at least every other's. -/
def LastAbove (dom : Avalue A) (rest : List (Widening A)) (last : Widening A) : Prop :=
  ∀ x ∈ rest ++ [last], dom.combine x.value last.value = last.value

section
variable {dom : Avalue A} (second : ∀ a b, dom.widen a b = b) (start : ∀ a, dom.combine dom.initial a = a)

include second in
private theorem foldl_widen (rest : List A) (last acc : A) : (rest ++ [last]).foldl dom.widen acc = last := by
  rw [List.foldl_append, List.foldl_cons, List.foldl_nil, second]

include second start in
theorem execute_phi (pp : ProgramPoint) (rest : List (Widening A)) (last : Widening A) :
    Widening.execute dom pp (.phi (rest ++ [last])) = .returns ⟨if widens pp (rest ++ [last]) then last.value
      else ((rest ++ [last]).map (·.value)).foldl dom.combine dom.initial, some pp⟩ := by
  cases rest with
  | nil => simp [Widening.execute, start]
  | cons x rest =>
    have many : ∃ y tail, rest ++ [last] = y :: tail := List.exists_cons_of_ne_nil (by simp)
    obtain ⟨y, tail, same⟩ := many
    simp only [List.cons_append, same, Widening.execute]
    split_ifs
    · rw [← same, List.map_cons, List.map_append, List.map_singleton, ← List.cons_append, foldl_widen second]
    · rfl

include second start in
theorem bounds_iff (pp : ProgramPoint) (rest : List (Widening A)) (last : Widening A) :
    Bounds dom pp (rest ++ [last]) ↔ if widens pp (rest ++ [last]) then LastAbove dom rest last else
      ∀ k ∈ (rest ++ [last]).map (·.value),
        dom.combine k (((rest ++ [last]).map (·.value)).foldl dom.combine dom.initial) =
          ((rest ++ [last]).map (·.value)).foldl dom.combine dom.initial := by
  simp only [Bounds, execute_phi second start, Outcome.returns.injEq, exists_eq_left', List.forall_mem_map]
  split_ifs <;> rfl

end

section Sets
open Panopticon.Kset Proofs.Kset Canonical
variable (order : Enumeration Element)

theorem combine_join (k : Kset) : combine order k .join = .join := by
  cases k <;> rfl

private theorem combine_meet (k : Kset) : combine order k .meet = k := by
  cases k <;> rfl

theorem meet_combine (k : Kset) : combine order .meet k = k := by
  cases k <;> rfl

theorem foldl_join (ks : List Kset) : ks.foldl (combine order) .join = .join := by
  induction ks with
  | nil => rfl
  | cons k rest ih => exact ih

private theorem foldl_of_join_mem {ks : List Kset} (member : .join ∈ ks) (acc : Kset) : ks.foldl (combine order) acc = .join := by
  obtain ⟨front, back, rfl⟩ := List.append_of_mem member
  rw [List.foldl_append, List.foldl_cons, combine_join, foldl_join]

theorem mem_sets {ks : List Kset} {v : List Element} : v ∈ sets ks ↔ .set v ∈ ks := by
  induction ks with
  | nil => simp [sets]
  | cons k rest ih => cases k <;> simp [sets, ih]

/-- Only the sets matter where no operand is `join`. -/
theorem foldl_sets {ks : List Kset} (absent : .join ∉ ks) (acc : Kset) :
    ks.foldl (combine order) acc = ((sets ks).map .set).foldl (combine order) acc := by
  induction ks generalizing acc with
  | nil => rfl
  | cons k rest ih =>
    obtain ⟨notJoin, outside⟩ := not_or.mp (mt List.mem_cons.mpr absent)
    cases k with
    | join => exact absurd rfl notJoin
    | meet =>
      rw [List.foldl_cons, combine_meet, ih outside]
      rfl
    | set v => rw [List.foldl_cons, sets, List.map_cons, List.foldl_cons, ih outside]

private theorem combine_gather {xs ys : List Element} (nonempty : xs ≠ []) :
    combine order (gather xs) (.set ys) = gather (xs ++ ys) := by
  rcases gather_cases xs with ⟨empty, -⟩ | ⟨-, many, result⟩ | ⟨-, -, result⟩
  · exact absurd empty nonempty
  · rw [result]
    have more := length_canonical_le Element.Le (List.subset_append_left xs ys)
    rcases gather_cases (xs ++ ys) with ⟨empty, -⟩ | ⟨-, -, larger⟩ | ⟨-, few, -⟩
    · exact absurd (List.append_eq_nil_iff.mp empty).1 nonempty
    · rw [larger]
      rfl
    · omega
  · rw [result, combine_sets]
    exact gather_congr (by simp)

private theorem foldl_gather {xs : List Element} (nonempty : xs ≠ []) (vs : List (List Element)) :
    (vs.map .set).foldl (combine order) (gather xs) = gather (xs ++ vs.flatten) := by
  induction vs generalizing xs with
  | nil => simp
  | cons v rest ih =>
    rw [List.map_cons, List.foldl_cons, combine_gather order nonempty, ih (by simp [nonempty]), List.flatten_cons,
      List.append_assoc]

private theorem combine_gather_of_subset {v xs : List Element} (nonempty : xs ≠ []) (subset : v ⊆ xs) :
    combine order (.set v) (gather xs) = gather xs := by
  rcases gather_cases xs with ⟨empty, -⟩ | ⟨-, -, result⟩ | ⟨-, -, result⟩
  · exact absurd empty nonempty
  · rw [result, combine_join]
  · conv_lhs => rw [result]
    rw [combine_sets]
    apply gather_congr
    intro x
    simp only [List.mem_append, mem_canonical, or_iff_right_iff_imp]
    exact fun member => subset member

def union (vs : List (List Element)) : Kset := (vs.map .set).foldl (combine order) .meet

theorem union_pair (v w : List Element) (rest : List (List Element)) :
    union order (v :: w :: rest) = (rest.map .set).foldl (combine order) (gather (v ++ w)) := by
  simp only [union, List.map_cons, List.foldl_cons, meet_combine, combine_sets]

private theorem union_settled (vs : List (List Element)) (settled : Kset.Settled vs) (nonempty : vs ≠ []) :
    union order vs = gather vs.flatten ∧ vs.flatten ≠ [] := by
  induction vs using Kset.Settled.induct with
  | case1 => exact absurd rfl nonempty
  | case2 v =>
    rw [List.flatten_singleton, gather_of_wellFormed settled]
    exact ⟨meet_combine order (.set v), settled.1⟩
  | case3 v w rest empty ih =>
    obtain ⟨rfl, rfl⟩ := empty
    rw [Kset.Settled, if_pos ⟨rfl, rfl⟩] at settled
    rw [union_pair]
    exact ih settled.2 settled.1
  | case4 v w rest some =>
    have pair : v ++ w ≠ [] := fun none => some (List.append_eq_nil_iff.mp none)
    rw [union_pair, foldl_gather order pair, List.flatten_cons, List.flatten_cons, ← List.append_assoc]
    exact ⟨rfl, List.append_ne_nil_of_left_ne_nil pair _⟩

private theorem above_iff_settled (vs : List (List Element)) :
    (∀ v ∈ vs, combine order (.set v) (union order vs) = union order vs) ↔ Kset.Settled vs := by
  constructor
  · intro above
    induction vs using Kset.Settled.induct with
    | case1 => trivial
    | case2 v =>
      have same := above v List.mem_cons_self
      change combine order (.set v) (combine order .meet (.set v)) = combine order .meet (.set v) at same
      rw [meet_combine, combine_sets] at same
      rw [Kset.Settled, ← same]
      exact gather_wellFormed (v ++ v)
    | case3 v w rest empty ih =>
      obtain ⟨rfl, rfl⟩ := empty
      rw [Kset.Settled, if_pos ⟨rfl, rfl⟩]
      have same : union order ([] :: [] :: rest) = union order rest := union_pair order [] [] rest
      rw [same] at above
      refine ⟨?_, ih fun v member => above v (by simp [member])⟩
      rintro rfl
      cases above [] List.mem_cons_self
    | case4 v w rest some =>
      rw [Kset.Settled, if_neg some]
      trivial
  · intro settled v member
    obtain ⟨result, nonempty⟩ := union_settled order vs settled (List.ne_nil_of_mem member)
    rw [result]
    exact combine_gather_of_subset order nonempty fun x inside => List.mem_flatten.mpr ⟨v, member, inside⟩

private theorem above_iff (ks : List Kset) :
    (∀ k ∈ ks, combine order k (ks.foldl (combine order) .meet) = ks.foldl (combine order) .meet) ↔
      .join ∈ ks ∨ Kset.Settled (sets ks) := by
  by_cases present : .join ∈ ks
  · simp only [foldl_of_join_mem order present, combine_join, implies_true, present, true_or]
  · rw [foldl_sets order present, or_iff_right present, ← above_iff_settled order]
    constructor
    · intro above v member
      exact above (.set v) (mem_sets.mp member)
    · intro above k member
      cases k with
      | join => exact absurd member present
      | meet => exact meet_combine order _
      | set v => exact above v (mem_sets.mpr member)

private theorem settled_of_wellFormed {vs : List (List Element)} (valid : ∀ v ∈ vs, WellFormed (.set v)) : Kset.Settled vs := by
  cases vs with
  | nil => trivial
  | cons v rest =>
    have validV := valid v List.mem_cons_self
    cases rest with
    | nil => exact validV
    | cons w rest =>
      rw [Kset.Settled, if_neg fun empty => validV.1 empty.1]
      trivial

end Sets

/-- For both domains, whatever points were recorded. The last part is about sets that keep the invariant of their
representation. -/
theorem widening_phi_iff (order : Enumeration Element) (pp : ProgramPoint) :
    (∀ (rest : List (Widening BoundedAddrTrack)) (last : Widening BoundedAddrTrack),
      Bounds BoundedAddrTrack.domain pp (rest ++ [last]) ↔
        (Later pp (rest ++ [last]) → LastAbove BoundedAddrTrack.domain rest last)) ∧
    (∀ (rest : List (Widening Kset)) (last : Widening Kset), Bounds (Kset.domain order) pp (rest ++ [last]) ↔
      (Later pp (rest ++ [last]) → LastAbove (Kset.domain order) rest last) ∧
      (¬Later pp (rest ++ [last]) →
        .join ∈ (rest ++ [last]).map (·.value) ∨ Kset.Settled (Kset.sets ((rest ++ [last]).map (·.value))))) ∧
    ∀ (rest : List (Widening Kset)) (last : Widening Kset), (∀ x ∈ rest ++ [last], x.value.WellFormed) →
      (Bounds (Kset.domain order) pp (rest ++ [last]) ↔
        (Later pp (rest ++ [last]) → LastAbove (Kset.domain order) rest last)) := by
  have raw (rest : List (Widening Kset)) (last : Widening Kset) : Bounds (Kset.domain order) pp (rest ++ [last]) ↔
      (Later pp (rest ++ [last]) → LastAbove (Kset.domain order) rest last) ∧
      (¬Later pp (rest ++ [last]) →
        .join ∈ (rest ++ [last]).map (·.value) ∨ Kset.Settled (Kset.sets ((rest ++ [last]).map (·.value)))) := by
    rw [bounds_iff (fun _ _ => rfl) (meet_combine order)]
    split_ifs with widening <;> rw [widens_iff] at widening
    · simp only [widening, true_implies, not_true, false_implies, and_true]
    · simp only [widening, false_implies, not_false_eq_true, true_implies, true_and]
      exact above_iff order _
  refine ⟨fun rest last => ?_, raw, fun rest last valid => ?_⟩
  · have start (a : BoundedAddrTrack) : BoundedAddrTrack.combine .meet a = a :=
      (Joins.join_eq_right BoundedAddrTrack.laws trivial trivial).mpr trivial
    have upper := (Joins.foldl_upper BoundedAddrTrack.laws ((rest ++ [last]).map (·.value)) .meet
      (fun _ _ => trivial) trivial).2.2
    rw [bounds_iff (fun _ _ => rfl) start]
    split_ifs with widening <;> rw [widens_iff] at widening
    · simp only [widening, true_implies]
    · simp only [widening, false_implies, iff_true]
      exact fun k member => (Joins.join_eq_right BoundedAddrTrack.laws trivial trivial).mpr (upper k member)
  · have settled : Kset.Settled (Kset.sets ((rest ++ [last]).map (·.value))) := by
      apply settled_of_wellFormed
      intro v member
      obtain ⟨x, inside, value⟩ := List.mem_map.mp (mem_sets.mp member)
      exact value ▸ valid x inside
    rw [raw]
    simp only [settled, or_true, implies_true, and_true]

/-- The value that was recorded at a later point is dropped. -/
theorem not_bounds :
    let later : ProgramPoint := ⟨1, 0⟩
    ¬Bounds (Kset.domain .canonical) ⟨0, 0⟩ [⟨.set [(1, 8)], some later⟩, ⟨.set [(2, 8)], none⟩] ∧
      ¬Bounds BoundedAddrTrack.domain ⟨0, 0⟩ [⟨.join, some later⟩, ⟨.meet, none⟩] := by
  constructor
  · rintro ⟨result, value, above⟩
    cases value
    exact absurd (above _ List.mem_cons_self) (by decide)
  · rintro ⟨result, value, above⟩
    cases value
    exact absurd (above _ List.mem_cons_self) (by decide)

theorem widening_phi_sets :
    Bounds (Kset.domain .canonical) ⟨1, 0⟩ ([⟨.set [(1, 8)], some ⟨0, 0⟩⟩] ++ [⟨.set [(2, 8)], none⟩]) := by
  apply ((widening_phi_iff .canonical ⟨1, 0⟩).2.2 _ _ ?_).mpr
  · rintro ⟨x, member, point, recorded, before⟩
    simp only [List.singleton_append, List.mem_cons, List.not_mem_nil, or_false] at member
    rcases member with rfl | rfl
    · cases recorded
      exact absurd before (by decide)
    · cases recorded
  · intro x member
    simp only [List.singleton_append, List.mem_cons, List.not_mem_nil, or_false] at member
    rcases member with rfl | rfl
    · exact Proofs.Kset.reduce_wellFormed 1 8
    · exact Proofs.Kset.reduce_wellFormed 2 8

end Proofs.Widening

end Panopticon
