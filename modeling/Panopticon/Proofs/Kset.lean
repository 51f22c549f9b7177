import Panopticon.Kset
import Panopticon.Library.Canonical

/-! The domain of small sets: its order, its least upper bounds, and its operations against those on constants.
Every operation that builds a set gathers the members of a list, in whatever order they come. -/

namespace Panopticon
open Panopticon.Library Panopticon.Library.Canonical Panopticon.Library.Word

namespace Element

theorem le_iff {x y : Element} : Le x y ↔ x.1.toNat < y.1.toNat ∨ x.1.toNat = y.1.toNat ∧ x.2 ≤ y.2 := by
  rw [Le, UInt64.lt_iff_toNat_lt, UInt64.toNat_inj]

instance : Std.Total Le where
  total x y := by
    rw [le_iff, le_iff]
    omega

instance : IsTrans Element Le where
  trans x y z := by
    rw [le_iff, le_iff, le_iff]
    omega

instance : Std.Antisymm Le where
  antisymm x y := by
    rw [le_iff, le_iff]
    intro first second
    exact Prod.ext (UInt64.toNat_inj.mp (by omega)) (by omega)

@[simp] theorem ofRvalue_toRvalue (x : Element) : ofRvalue x.toRvalue = some x := rfl

private theorem ofRvalue_eq_some {rv : Rvalue} {x : Element} : ofRvalue rv = some x ↔ rv = x.toRvalue := by
  cases rv with
  | constant value size => simp [ofRvalue, toRvalue, Prod.ext_iff]
  | undefined => simp [ofRvalue, toRvalue]
  | var name subscript offset size => simp [ofRvalue, toRvalue]

end Element

namespace Kset

def WellFormed : Kset → Prop
  | .set v => v ≠ [] ∧ v.length ≤ maximalCardinality ∧ Ascending Element.Le v
  | _ => True

/-- The constants a set stands for: all of them for `join`, none for `meet`. -/
def Mem (x : Element) : Kset → Prop
  | .join => True
  | .set v => x ∈ v
  | .meet => False

/-- Inclusion, with `meet` below and `join` above everything. -/
def Le : Kset → Kset → Prop
  | .meet, _ => True
  | _, .join => True
  | .set a, .set b => a ⊆ b
  | _, _ => False

end Kset

namespace Proofs.Kset
open Panopticon.Kset

/-- The set of the members of a list, cut off above the largest cardinality. -/
def gather (xs : List Element) : Kset :=
  let v := canonical Element.Le xs
  if v = [] then .meet else if maximalCardinality < v.length then .join else .set v

theorem gather_cases (xs : List Element) :
    xs = [] ∧ gather xs = .meet ∨ xs ≠ [] ∧ maximalCardinality < (canonical Element.Le xs).length ∧ gather xs = .join ∨
      xs ≠ [] ∧ (canonical Element.Le xs).length ≤ maximalCardinality ∧ gather xs = .set (canonical Element.Le xs) := by
  have empty : canonical Element.Le xs = [] ↔ xs = [] := by
    simp only [List.eq_nil_iff_forall_not_mem, mem_canonical]
  simp only [gather, empty]
  split_ifs with none many
  · exact .inl ⟨none, rfl⟩
  · exact .inr (.inl ⟨none, many, rfl⟩)
  · exact .inr (.inr ⟨none, by omega, rfl⟩)

theorem gather_congr {xs ys : List Element} (same : ∀ x, x ∈ xs ↔ x ∈ ys) : gather xs = gather ys := by
  simp only [gather, canonical_congr Element.Le same]

theorem gather_wellFormed (xs : List Element) : (gather xs).WellFormed := by
  rcases gather_cases xs with ⟨_, result⟩ | ⟨_, _, result⟩ | ⟨some, few, result⟩
  · rw [result]
    trivial
  · rw [result]
    trivial
  · rw [result]
    refine ⟨?_, few, ascending_canonical Element.Le xs⟩
    obtain ⟨x, member⟩ := List.exists_mem_of_ne_nil xs some
    exact List.ne_nil_of_mem ((mem_canonical Element.Le).mpr member)

theorem mem_gather {xs : List Element} {x : Element} (member : x ∈ xs) : Mem x (gather xs) := by
  rcases gather_cases xs with ⟨rfl, _⟩ | ⟨_, _, result⟩ | ⟨_, _, result⟩
  · cases member
  · rw [result]
    trivial
  · rw [result]
    exact (mem_canonical Element.Le).mpr member

theorem gather_le {xs ys : List Element} (subset : xs ⊆ ys) : Le (gather xs) (gather ys) := by
  have count := length_canonical_le Element.Le subset
  rcases gather_cases ys with ⟨rfl, _⟩ | ⟨_, _, larger⟩ | ⟨_, few, larger⟩
  · obtain rfl := List.subset_nil.mp subset
    trivial
  · rw [larger]
    cases gather xs <;> trivial
  · rcases gather_cases xs with ⟨_, smaller⟩ | ⟨_, many, _⟩ | ⟨_, _, smaller⟩
    · rw [smaller]
      trivial
    · omega
    · rw [smaller, larger]
      intro x member
      simp only [mem_canonical] at member ⊢
      exact subset member

theorem gather_of_wellFormed {v : List Element} (valid : WellFormed (.set v)) : gather v = .set v := by
  obtain ⟨some, few, ascending⟩ := valid
  rw [gather, ascending.canonical_eq]
  simp [some, Nat.not_lt.mpr few]

/-- The loop keeps a set of at most the largest cardinality, and stops where one more would be too many. -/
theorem collect_spec {f : α → Option Element} (xs : List α) {ret : List Element} (nodup : ret.Nodup)
    (few : ret.length ≤ maximalCardinality) :
    (collect f ret xs = none ∧ maximalCardinality < (ret ++ xs.filterMap f).dedup.length) ∨
      ∃ out, collect f ret xs = some out ∧ out.Nodup ∧ out.length ≤ maximalCardinality ∧
        ∀ x, x ∈ out ↔ x ∈ ret ++ xs.filterMap f := by
  induction xs generalizing ret with
  | nil => exact .inr ⟨ret, rfl, nodup, few, by simp⟩
  | cons x rest ih =>
    cases value : f x with
    | none =>
      rw [collect, value, List.filterMap_cons_none value]
      exact ih nodup few
    | some y =>
      rw [collect, value, List.filterMap_cons_some value]
      have inserted : ∀ z, z ∈ ret.insert y ++ rest.filterMap f ↔ z ∈ ret ++ y :: rest.filterMap f := by
        intro z
        simp only [List.mem_append, List.mem_insert_iff, List.mem_cons]
        tauto
      have distinct : (ret.insert y).Nodup := nodup.insert
      simp only
      split_ifs with many
      · refine .inl ⟨rfl, ?_⟩
        have subset : (ret.insert y).Subperm (ret ++ y :: rest.filterMap f).dedup :=
          distinct.subperm fun z member => by
            rw [List.mem_dedup, ← inserted]
            exact List.mem_append_left _ member
        exact many.trans_le subset.length_le
      · rcases ih distinct (Nat.not_lt.mp many) with ⟨none, count⟩ | ⟨out, result, outNodup, outFew, members⟩
        · have same : (ret.insert y ++ rest.filterMap f).dedup.length = (ret ++ y :: rest.filterMap f).dedup.length :=
            ((List.perm_ext_iff_of_nodup (List.nodup_dedup _) (List.nodup_dedup _)).mpr fun z => by
              simpa only [List.mem_dedup] using inserted z).length_eq
          exact .inl ⟨none, same ▸ count⟩
        · exact .inr ⟨out, result, outNodup, outFew, fun z => (members z).trans (inserted z)⟩

theorem sort_list_eq (order : Enumeration Element) {ret xs : List Element} (nodup : ret.Nodup)
    (same : ∀ x, x ∈ ret ↔ x ∈ xs) : Element.sort (order.list ret) = canonical Element.Le xs :=
  sort_eq_canonical Element.Le ((order.perm ret).nodup_iff.mpr nodup) (by simpa using same)

/-- The results of an operation on all pairs of members. -/
def results (f : Rvalue → Rvalue → Rvalue) (a b : List Element) : List Element :=
  (a.product b).filterMap fun (x, y) => Element.ofRvalue (f x.toRvalue y.toRvalue)

theorem mem_results {f : Rvalue → Rvalue → Rvalue} {a b : List Element} {z : Element} :
    z ∈ results f a b ↔ ∃ x ∈ a, ∃ y ∈ b, f x.toRvalue y.toRvalue = z.toRvalue := by
  constructor
  · intro member
    obtain ⟨⟨x, y⟩, pair, value⟩ := List.mem_filterMap.mp member
    obtain ⟨left, right⟩ := List.pair_mem_product.mp pair
    exact ⟨x, left, y, right, Element.ofRvalue_eq_some.mp value⟩
  · rintro ⟨x, left, y, right, same⟩
    exact List.mem_filterMap.mpr ⟨(x, y), List.pair_mem_product.mpr ⟨left, right⟩, Element.ofRvalue_eq_some.mpr same⟩

theorem permute_sets (order : Enumeration Element) (a b : List Element) (f : Rvalue → Rvalue → Rvalue) :
    permute order (.set a) (.set b) f = gather (results f a b) := by
  simp only [permute]
  have collected := collect_spec (f := fun (x, y) => Element.ofRvalue (f (Element.toRvalue x) (Element.toRvalue y)))
    (a.product b) List.nodup_nil (Nat.zero_le maximalCardinality)
  rw [List.nil_append] at collected
  change _ ∧ _ < (results f a b).dedup.length ∨ ∃ out, _ ∧ _ ∧ _ ∧ ∀ x, x ∈ out ↔ x ∈ results f a b at collected
  rcases collected with ⟨none, many⟩ | ⟨ret, some, nodup, few, same⟩
  · rw [← length_canonical Element.Le] at many
    have nonempty : canonical Element.Le (results f a b) ≠ [] := by
      rw [← List.length_pos_iff]
      omega
    simp only [none, gather, if_neg nonempty, if_pos many]
  · have sorted := sort_list_eq order nodup same
    have length : (canonical Element.Le (results f a b)).length = ret.length := by
      rw [← sorted, Element.sort, List.length_insertionSort, order.length_list]
    have empty : canonical Element.Le (results f a b) = [] ↔ ret = [] := by
      rw [← List.length_eq_zero_iff, length, List.length_eq_zero_iff]
    simp only [some, gather, sorted, empty, length, if_neg (Nat.not_lt.mpr few)]

theorem map_set (order : Enumeration Element) (a : List Element) (f : Rvalue → Rvalue) :
    map order (.set a) f = gather (a.filterMap fun x => Element.ofRvalue (f x.toRvalue)) := by
  have sorted := sort_list_eq order (List.nodup_dedup (a.filterMap fun x => Element.ofRvalue (f x.toRvalue)))
    fun x => List.mem_dedup
  have length := congrArg List.length sorted
  rw [Element.sort, List.length_insertionSort, order.length_list] at length
  have empty : (a.filterMap fun x => Element.ofRvalue (f x.toRvalue)).dedup = [] ↔
      canonical Element.Le (a.filterMap fun x => Element.ofRvalue (f x.toRvalue)) = [] := by
    rw [← List.length_eq_zero_iff, length, List.length_eq_zero_iff]
  simp only [map, gather, sorted, length, empty]
  split_ifs with many none
  · rw [none] at many
    exact absurd many (Nat.not_lt_zero _)
  all_goals rfl

theorem combine_sets (order : Enumeration Element) (a b : List Element) :
    combine order (.set a) (.set b) = gather (a ++ b) := by
  have sorted := sort_list_eq order (List.nodup_dedup (a ++ b)) fun x => List.mem_dedup
  simp only [combine, gather, sorted]

section Order

theorem le_refl (a : Kset) : Le a a := by
  cases a with
  | set v => exact List.Subset.refl v
  | join => trivial
  | meet => trivial

theorem le_trans {a b c : Kset} (first : Le a b) (second : Le b c) : Le a c := by
  cases a <;> cases b <;> cases c <;> first | trivial | exact List.Subset.trans first second

theorem join_le {a : Kset} : Le .join a ↔ a = .join := by
  cases a <;> simp [Le]

theorem le_join (a : Kset) : Le a .join := by
  cases a <;> trivial

theorem le_antisymm {a b : Kset} (validA : a.WellFormed) (validB : b.WellFormed) (first : Le a b) (second : Le b a) :
    a = b := by
  cases a with
  | join => exact (join_le.mp first).symm
  | meet =>
    cases b with
    | meet => rfl
    | set v => cases second
    | join => cases second
  | set v =>
    cases b with
    | join => cases second
    | meet => cases first
    | set w => rw [validA.2.2.eq validB.2.2 fun x => ⟨fun member => first member, fun member => second member⟩]

private theorem gather_le_set {xs v : List Element} (valid : WellFormed (.set v)) (subset : xs ⊆ v) : Le (gather xs) (.set v) := by
  rw [← gather_of_wellFormed valid]
  exact gather_le subset

end Order

section Lattice

variable (order : Enumeration Element) {a b c : Kset}

theorem combine_wellFormed (validA : a.WellFormed) (validB : b.WellFormed) : (combine order a b).WellFormed := by
  cases a with
  | join => trivial
  | meet => cases b <;> trivial
  | set v =>
    cases b with
    | join => trivial
    | meet => exact validA
    | set w =>
      rw [combine_sets]
      exact gather_wellFormed _

theorem le_combine_left (validA : a.WellFormed) : Le a (combine order a b) := by
  cases a with
  | join => exact le_join _
  | meet => trivial
  | set v =>
    cases b with
    | join => trivial
    | meet => exact le_refl _
    | set w =>
      rw [combine_sets]
      conv_lhs => rw [← gather_of_wellFormed validA]
      exact gather_le (List.subset_append_left v w)

theorem le_combine_right (validB : b.WellFormed) : Le b (combine order a b) := by
  cases b with
  | join => cases a <;> trivial
  | meet => trivial
  | set w =>
    cases a with
    | join => trivial
    | meet => exact le_refl _
    | set v =>
      rw [combine_sets]
      conv_lhs => rw [← gather_of_wellFormed validB]
      exact gather_le (List.subset_append_right v w)

theorem combine_le (validC : c.WellFormed) (first : Le a c) (second : Le b c) : Le (combine order a b) c := by
  cases c with
  | join => exact le_join _
  | meet =>
    cases a with
    | meet => cases b <;> trivial
    | _ => cases first
  | set u =>
    cases a with
    | join => cases first
    | meet => cases b <;> trivial
    | set v =>
      cases b with
      | join => cases second
      | meet => exact first
      | set w =>
        rw [combine_sets]
        exact gather_le_set validC (List.append_subset.mpr ⟨first, second⟩)

theorem combine_eq {d : Kset} (validA : a.WellFormed) (validB : b.WellFormed) (validD : d.WellFormed)
    (left : Le a d) (right : Le b d) (least : ∀ e : Kset, e.WellFormed → Le a e → Le b e → Le d e) :
    combine order a b = d :=
  le_antisymm (combine_wellFormed order validA validB) validD (combine_le order validD left right)
    (least _ (combine_wellFormed order validA validB) (le_combine_left order validA) (le_combine_right order validB))

end Lattice

section Monotone

private theorem permute_mono (order order' : Enumeration Element) (f : Rvalue → Rvalue → Rvalue) {a a' b b' : Kset}
    (left : Le a a') (right : Le b b') : Le (permute order a b f) (permute order' a' b' f) := by
  by_cases top : a' = .join ∨ b' = .join
  · have result : permute order' a' b' f = .join := by
      rcases top with rfl | rfl
      · rfl
      · cases a' <;> rfl
    rw [result]
    exact le_join _
  · -- no operand is `join`, and where one is `meet` so is the result
    obtain ⟨notA, notB⟩ := not_or.mp top
    cases a with
    | join => exact absurd (join_le.mp left) notA
    | meet =>
      cases b with
      | join => exact absurd (join_le.mp right) notB
      | meet => trivial
      | set w => trivial
    | set v =>
      cases b with
      | join => exact absurd (join_le.mp right) notB
      | meet => trivial
      | set w =>
        cases a' with
        | join => exact absurd rfl notA
        | meet => cases left
        | set v' =>
          cases b' with
          | join => exact absurd rfl notB
          | meet => cases right
          | set w' =>
            rw [permute_sets, permute_sets]
            apply gather_le
            intro z member
            obtain ⟨x, inA, y, inB, same⟩ := mem_results.mp member
            exact mem_results.mpr ⟨x, left inA, y, right inB, same⟩

private theorem map_mono (order order' : Enumeration Element) (f : Rvalue → Rvalue) {a a' : Kset} (below : Le a a') :
    Le (map order a f) (map order' a' f) := by
  cases a' with
  | join => exact le_join _
  | meet =>
    cases a with
    | meet => trivial
    | _ => cases below
  | set v' =>
    cases a with
    | join => cases below
    | meet => trivial
    | set v =>
      rw [map_set, map_set]
      apply gather_le
      intro z member
      obtain ⟨x, inside, value⟩ := List.mem_filterMap.mp member
      exact List.mem_filterMap.mpr ⟨x, below inside, value⟩

private theorem combine_mono (order order' : Enumeration Element) {a a' b b' : Kset} (validA : a'.WellFormed)
    (validB : b'.WellFormed) (left : Le a a') (right : Le b b') : Le (combine order a b) (combine order' a' b') :=
  combine_le order (combine_wellFormed order' validA validB) (le_trans left (le_combine_left order' validA))
    (le_trans right (le_combine_right order' validB))

private theorem phi_mono (orders orders' : Nat → Enumeration Element) (pairs : List (Kset × Kset)) (i : Nat) {acc acc' : Kset}
    (valid : ∀ p ∈ pairs, p.1.WellFormed ∧ p.2.WellFormed) (below : ∀ p ∈ pairs, Le p.1 p.2)
    (validAcc : acc'.WellFormed) (belowAcc : Le acc acc') :
    Le (((pairs.map Prod.fst).zipIdx i).foldl (fun acc (x, i) => combine (orders i) acc x) acc)
      (((pairs.map Prod.snd).zipIdx i).foldl (fun acc (x, i) => combine (orders' i) acc x) acc') := by
  induction pairs generalizing i acc acc' with
  | nil => exact belowAcc
  | cons p rest ih =>
    simp only [List.map_cons, List.zipIdx_cons, List.foldl_cons]
    have validP := (valid p (by simp)).2
    apply ih
    · exact fun q member => valid q (List.mem_cons_of_mem p member)
    · exact fun q member => below q (List.mem_cons_of_mem p member)
    · exact combine_wellFormed _ validAcc validP
    · exact combine_mono _ _ validAcc validP belowAcc (below p (by simp))

/-- What an operation makes of larger operands is larger, and a phi comes back where it has an operand. -/
theorem execute_mono (orders orders' : Nat → Enumeration Element) (pairs : Operation (Kset × Kset))
    (valid : ∀ p ∈ pairs.operands, p.1.WellFormed ∧ p.2.WellFormed) (below : ∀ p ∈ pairs.operands, Le p.1 p.2)
    (some : pairs ≠ .phi []) :
    ∃ r r', Kset.execute orders (pairs.lift Prod.fst) = .returns r ∧ Kset.execute orders' (pairs.lift Prod.snd) = .returns r' ∧
      Le r r' := by
  cases pairs with
  | add p q | subtract p q | multiply p q | divideUnsigned p q | divideSigned p q | shiftLeft p q
  | shiftRightUnsigned p q | shiftRightSigned p q | modulo p q | and p q | inclusiveOr p q | exclusiveOr p q | equal p q
  | lessOrEqualUnsigned p q | lessOrEqualSigned p q | lessUnsigned p q | lessSigned p q | select _ p q
  | store _ _ _ p q =>
    exact ⟨_, _, rfl, rfl, permute_mono _ _ _ (below p (by simp [Operation.operands])) (below q (by simp [Operation.operands]))⟩
  | zeroExtend _ p | signExtend _ p | move p | call p | load _ _ _ p =>
    exact ⟨_, _, rfl, rfl, map_mono _ _ _ (below p (by simp [Operation.operands]))⟩
  | initialized name size => exact ⟨_, _, rfl, rfl, trivial⟩
  | phi operands =>
    rcases operands with _ | ⟨p, _ | ⟨q, rest⟩⟩
    · exact absurd rfl some
    · exact ⟨p.1, p.2, rfl, rfl, below p (by simp [Operation.operands])⟩
    · have empty : WellFormed .meet := trivial
      exact ⟨_, _, rfl, rfl, phi_mono orders orders' (p :: q :: rest) 0 valid below empty (le_refl .meet)⟩

end Monotone

/-- The least upper bound of two sets. -/
structure LeastUpperBound (a b c : Kset) : Prop where
  valid : c.WellFormed
  left : Le a c
  right : Le b c
  least : ∀ d : Kset, d.WellFormed → Le a d → Le b d → Le c d

theorem combine_least (order : Enumeration Element) {a b : Kset} (validA : a.WellFormed) (validB : b.WellFormed) :
    LeastUpperBound a b (combine order a b) where
  valid := combine_wellFormed order validA validB
  left := le_combine_left order validA
  right := le_combine_right order validB
  least _ valid first second := combine_le order valid first second

/-- Combining is the least upper bound, and every operation is monotone, whatever orders sets are iterated in. -/
theorem kset_semilattice (order order' : Enumeration Element) (orders orders' : Nat → Enumeration Element) :
    (∀ a b : Kset, a.WellFormed → b.WellFormed → LeastUpperBound a b (combine order a b) ∧
      combine order a b = combine order' b a) ∧
    (∀ a b c : Kset, a.WellFormed → b.WellFormed → c.WellFormed →
      combine order (combine order a b) c = combine order' a (combine order' b c)) ∧
    (∀ a : Kset, a.WellFormed → combine order a a = a) ∧
    ∀ pairs : Operation (Kset × Kset), (∀ p ∈ pairs.operands, p.1.WellFormed ∧ p.2.WellFormed) →
      (∀ p ∈ pairs.operands, Le p.1 p.2) → pairs ≠ .phi [] →
      ∃ r r', Kset.execute orders (pairs.lift Prod.fst) = .returns r ∧ Kset.execute orders' (pairs.lift Prod.snd) = .returns r' ∧
        Le r r' := by
  refine ⟨?_, ?_, ?_, execute_mono orders orders'⟩
  · intro a b validA validB
    have swapped := combine_least order' validB validA
    exact ⟨combine_least order validA validB, combine_eq order validA validB swapped.valid swapped.right swapped.left
      fun e valid first second => swapped.least e valid second first⟩
  · intro a b c validA validB validC
    have inner := combine_least order validA validB
    have inner' := combine_least order' validB validC
    have outer := combine_least order' validA inner'.valid
    apply combine_eq order inner.valid validC outer.valid
    · exact inner.least _ outer.valid outer.left (le_trans inner'.left outer.right)
    · exact le_trans inner'.right outer.right
    · intro e valid first second
      exact outer.least e valid (le_trans inner.left first)
        (inner'.least e valid (le_trans inner.right first) second)
  · intro a valid
    exact combine_eq order valid valid valid (le_refl a) (le_refl a) fun e _ first _ => first

theorem kset_semilattice_bytes : combine .canonical (.set [(1, 8)]) (.set [(2, 8)]) =
    combine .reversed (.set [(2, 8)]) (.set [(1, 8)]) := by
  have valid : ∀ v, WellFormed (.set [(v, 8)]) := fun v =>
    ⟨List.cons_ne_nil _ _, by simp [maximalCardinality], ascending_singleton Element.Le (v, 8)⟩
  exact ((kset_semilattice .canonical .reversed (fun _ => .canonical) fun _ => .reversed).1 _ _ (valid 1) (valid 2)).2

section Members

variable (order : Enumeration Element) {a b : Kset} {x y z : Element}

private theorem permute_mem {f : Rvalue → Rvalue → Rvalue} (left : Mem x a) (right : Mem y b)
    (result : f x.toRvalue y.toRvalue = z.toRvalue) : Mem z (permute order a b f) := by
  cases a with
  | join => trivial
  | meet => cases left
  | set v =>
    cases b with
    | join => trivial
    | meet => cases right
    | set w =>
      rw [permute_sets]
      exact mem_gather (mem_results.mpr ⟨x, left, y, right, result⟩)

private theorem permute_join {f : Rvalue → Rvalue → Rvalue} (top : a = .join ∨ b = .join) : permute order a b f = .join := by
  rcases top with rfl | rfl
  · rfl
  · cases a <;> rfl

private theorem map_mem {f : Rvalue → Rvalue} (member : Mem x a) (result : f x.toRvalue = z.toRvalue) :
    Mem z (map order a f) := by
  cases a with
  | join => trivial
  | meet => cases member
  | set v =>
    rw [map_set]
    exact mem_gather (List.mem_filterMap.mpr ⟨x, member, Element.ofRvalue_eq_some.mpr result⟩)

private theorem combine_mem_left (member : Mem x a) : Mem x (combine order a b) := by
  cases a with
  | join => trivial
  | meet => cases member
  | set v =>
    cases b with
    | join => trivial
    | meet => exact member
    | set w =>
      rw [combine_sets]
      exact mem_gather (List.mem_append_left w member)

private theorem combine_mem_right (member : Mem x b) : Mem x (combine order a b) := by
  cases b with
  | join => cases a <;> trivial
  | meet => cases member
  | set w =>
    cases a with
    | join => trivial
    | meet => exact member
    | set v =>
      rw [combine_sets]
      exact mem_gather (List.mem_append_right v member)

private theorem combine_join_right : combine order a .join = .join := by
  cases a <;> rfl

end Members

section Phi

variable (orders : Nat → Enumeration Element)

private theorem foldl_mem {x : Element} (operands : List Kset) (i : Nat) {acc : Kset}
    (member : Mem x acc ∨ ∃ k ∈ operands, Mem x k) :
    Mem x ((operands.zipIdx i).foldl (fun acc (x, i) => combine (orders i) acc x) acc) := by
  induction operands generalizing i acc with
  | nil => simpa using member
  | cons k rest ih =>
    rw [List.zipIdx_cons, List.foldl_cons]
    apply ih
    rcases member with already | ⟨k', inside, member⟩
    · exact .inl (combine_mem_left _ already)
    · rcases List.mem_cons.mp inside with rfl | later
      · exact .inl (combine_mem_right _ member)
      · exact .inr ⟨k', later, member⟩

theorem foldl_join (operands : List Kset) (i : Nat) {acc : Kset} (top : acc = .join ∨ .join ∈ operands) :
    (operands.zipIdx i).foldl (fun acc (x, i) => combine (orders i) acc x) acc = .join := by
  induction operands generalizing i acc with
  | nil => simpa using top
  | cons k rest ih =>
    rw [List.zipIdx_cons, List.foldl_cons]
    apply ih
    rcases top with rfl | inside
    · exact .inl rfl
    · rcases List.mem_cons.mp inside with rfl | later
      · exact .inl (combine_join_right _)
      · exact .inr later

theorem execute_phi {operands : List Kset} (some : operands ≠ []) : ∃ k, Kset.execute orders (.phi operands) = .returns k ∧
    (∀ x, (∃ k' ∈ operands, Mem x k') → Mem x k) ∧ (.join ∈ operands → k = .join) := by
  rcases operands with _ | ⟨k, _ | ⟨l, rest⟩⟩
  · exact absurd rfl some
  · exact ⟨k, rfl, by simp, by simp [eq_comm]⟩
  · exact ⟨_, rfl, fun x member => foldl_mem orders (k :: l :: rest) 0 (.inr member),
      fun inside => foldl_join orders (k :: l :: rest) 0 (.inr inside)⟩

end Phi

/-- The concrete operation on chosen members of the operands. -/
def chosen (op : Operation (Kset × Element)) : Operation Rvalue := op.lift fun p => p.2.toRvalue

/-- The abstract result has every constant the concrete operation gives, and is `join` where it gives none. -/
def OverApproximates (orders : Nat → Enumeration Element) (op : Operation (Kset × Element)) : Prop :=
  ∃ k, Kset.execute orders (op.lift Prod.fst) = .returns k ∧ (∀ x, execute (chosen op) = x.toRvalue → Mem x k) ∧
    (execute (chosen op) = .undefined → k = .join)

private theorem execute_mem (orders : Nat → Enumeration Element) (op : Operation (Kset × Element))
    (members : ∀ p ∈ op.operands, Mem p.2 p.1) (some : op ≠ .phi []) :
    ∃ k, Kset.execute orders (op.lift Prod.fst) = .returns k ∧ (∀ x, execute (chosen op) = x.toRvalue → Mem x k) ∧
      ((∃ p ∈ op.operands, p.1 = .join) → k = .join) ∧ (∀ operands, op = .phi operands → ∀ p ∈ operands, Mem p.2 k) := by
  cases op with
  | add p q | subtract p q | multiply p q | divideUnsigned p q | divideSigned p q | shiftLeft p q
  | shiftRightUnsigned p q | shiftRightSigned p q | modulo p q | and p q | inclusiveOr p q | exclusiveOr p q | equal p q
  | lessOrEqualUnsigned p q | lessOrEqualSigned p q | lessUnsigned p q | lessSigned p q | select _ p q
  | store _ _ _ p q =>
    refine ⟨_, rfl, fun x result => permute_mem _ (members p ?_) (members q ?_) result, fun top => permute_join _ ?_, ?_⟩
    · simp [Operation.operands]
    · simp [Operation.operands]
    · simpa [Operation.operands] using top
    · intro operands phi
      cases phi
  | zeroExtend _ p | signExtend _ p | move p | call p | load _ _ _ p =>
    refine ⟨_, rfl, fun x result => map_mem _ (members p ?_) result, fun top => ?_, ?_⟩
    · simp [Operation.operands]
    · have whole : p.1 = .join := by simpa [Operation.operands] using top
      rw [whole]
      rfl
    · intro operands phi
      cases phi
  | initialized name size =>
    refine ⟨_, rfl, fun x result => ?_, fun top => ?_, ?_⟩
    · cases result
    · obtain ⟨p, inside, -⟩ := top
      cases inside
    · intro operands phi
      cases phi
  | phi pairs =>
    have nonempty : pairs.map Prod.fst ≠ [] := by
      intro empty
      exact some (by rw [List.map_eq_nil_iff.mp empty])
    obtain ⟨k, result, contains, top⟩ := execute_phi orders nonempty
    have inside : ∀ p ∈ pairs, Mem p.2 k := fun p member =>
      contains p.2 ⟨p.1, List.mem_map_of_mem member, members p member⟩
    refine ⟨k, result, fun x concrete => ?_, fun wide => ?_, ?_⟩
    · -- a concrete phi has a result where all its operands are that result
      cases pairs with
      | nil => exact absurd rfl some
      | cons p rest =>
        simp only [chosen, Operation.lift, List.map_cons, execute] at concrete
        split at concrete
        · have same : p.2 = x := by
            have value := congrArg Element.ofRvalue concrete
            simpa using value
          exact same ▸ inside p (by simp)
        · cases concrete
    · obtain ⟨p, member, whole⟩ := wide
      exact top (whole ▸ List.mem_map_of_mem member)
    · rintro operands same
      obtain rfl := Operation.phi.inj same
      exact inside

private theorem extract_mem {k : Kset} {x y : Element} (member : Mem x k) {size offset : Nat} (short : size < 64)
    (extracted : x.toRvalue.extract size offset = .ok y.toRvalue) (clear : y.1.toNat < 2 ^ (size - 1)) :
    Mem y (k.extract size offset) := by
  cases k with
  | join => trivial
  | meet => cases member
  | set v =>
    obtain ⟨value, width⟩ := x
    simp only [Element.toRvalue, Rvalue.extract] at extracted
    split_ifs at extracted with zero inside
    simp only [Except.ok.injEq, Rvalue.constant.injEq] at extracted
    obtain ⟨field, rfl⟩ := extracted
    refine List.mem_map.mpr ⟨(value, width), member, Prod.ext ?_ rfl⟩
    -- both moduli give the field where its top bit is clear
    have half : 2 ^ (y.2 - 1) ∣ 2 ^ y.2 := pow_dvd_pow 2 (by omega)
    rw [← field, UInt64.toNat_mod, toNat_bit short] at clear
    simp only
    rw [← field, toUInt64_sub_one (by omega), ← UInt64.toNat_inj, UInt64.toNat_mod, UInt64.toNat_mod,
      toNat_bit (by omega), toNat_bit short, ← Nat.mod_mod_of_dvd _ half, Nat.mod_eq_of_lt clear]

/-- Constant results are members of the abstract result, an unknown operand makes it unknown, and a phi
contains all that meets there. -/
theorem kset_contains (orders : Nat → Enumeration Element) (op : Operation (Kset × Element))
    (members : ∀ p ∈ op.operands, Mem p.2 p.1) (some : op ≠ .phi []) {k : Kset} {x : Element} (member : Mem x k)
    (size offset : Nat) :
    (∃ k, Kset.execute orders (op.lift Prod.fst) = .returns k ∧ (∀ x, execute (chosen op) = x.toRvalue → Mem x k) ∧
      ((∃ p ∈ op.operands, p.1 = .join) → k = .join) ∧ ∀ operands, op = .phi operands → ∀ p ∈ operands, Mem p.2 k) ∧
    (k = .join → k.extract size offset = .join) ∧
    (size < 64 → ∀ y : Element, x.toRvalue.extract size offset = .ok y.toRvalue → y.1.toNat < 2 ^ (size - 1) →
      Mem y (k.extract size offset)) := by
  refine ⟨execute_mem orders op members some, ?_, fun short y => extract_mem member short⟩
  rintro rfl
  rfl

/-- Two constants that meet: the concrete phi is undefined, the abstract one is the set of both. -/
theorem not_overApproximates_phi :
    let op : Operation (Kset × Element) := .phi [(.set [(1, 8)], (1, 8)), (.set [(2, 8)], (2, 8))]
    (∀ p ∈ op.operands, Mem p.2 p.1) ∧ ¬OverApproximates (fun _ => .canonical) op := by
  constructor
  · simp [Operation.operands, Mem]
  · rintro ⟨k, result, -, unknown⟩
    have value : execute (.phi [.constant 1 8, .constant 2 8]) = .undefined := by decide
    obtain rfl := unknown value
    revert result
    decide

theorem kset_contains_add :
    ∃ k, Kset.execute (fun _ => .canonical) (.add (.set [(1, 8)]) (.set [(2, 8)])) = .returns k ∧ Mem (3, 8) k := by
  have member : ∀ x : Element, Mem x (.set [x]) := fun x => List.mem_singleton_self x
  obtain ⟨k, result, contains, -⟩ := (kset_contains (fun _ => .canonical)
    (.add (.set [(1, 8)], (1, 8)) (.set [(2, 8)], (2, 8))) (by simp [Operation.operands, Mem]) (by simp) (member (1, 8)) 8 0).1
  exact ⟨k, result, contains (3, 8) (by decide)⟩

section Representation

theorem zip_all_eq {v w : List Element} (length : v.length = w.length) :
    ((v.zip w).all fun (x, y) => decide (x = y)) = true ↔ v = w := by
  induction v generalizing w with
  | nil =>
    obtain rfl := List.length_eq_zero_iff.mp length.symm
    simp
  | cons x rest ih =>
    cases w with
    | nil => cases length
    | cons y rest' =>
      simp only [List.zip_cons_cons, List.all_cons, Bool.and_eq_true, decide_eq_true_eq, List.cons.injEq]
      rw [ih (by simpa using length)]

theorem eq_iff {a b : Kset} : Kset.eq a b = true ↔ a = b := by
  cases a with
  | set v =>
    cases b with
    | set w =>
      simp only [Kset.eq, decide_eq_true_eq, Kset.set.injEq]
      constructor
      · rintro ⟨length, same⟩
        exact (zip_all_eq length).mp same
      · rintro rfl
        exact ⟨rfl, (zip_all_eq rfl).mpr rfl⟩
    | join => simp [Kset.eq]
    | meet => simp [Kset.eq]
  | join => cases b <;> simp [Kset.eq]
  | meet => cases b <;> simp [Kset.eq]

theorem exists_not_mem (v : List Element) : ∃ x, x ∉ v := by
  obtain ⟨x, outside⟩ := Infinite.exists_notMem_finset v.toFinset
  exact ⟨x, by simpa using outside⟩

/-- Values that keep the invariant and stand for the same constants are the same. -/
theorem eq_of_mem_iff {a b : Kset} (validA : a.WellFormed) (validB : b.WellFormed) (same : ∀ x, Mem x a ↔ Mem x b) :
    a = b := by
  cases a with
  | join =>
    cases b with
    | join => rfl
    | meet => exact ((same (0, 0)).mp trivial).elim
    | set w =>
      obtain ⟨x, outside⟩ := exists_not_mem w
      exact absurd ((same x).mp trivial) outside
  | meet =>
    cases b with
    | join => exact ((same (0, 0)).mpr trivial).elim
    | meet => rfl
    | set w =>
      obtain ⟨x, inside⟩ := List.exists_mem_of_ne_nil w validB.1
      exact ((same x).mpr inside).elim
  | set v =>
    cases b with
    | join =>
      obtain ⟨x, outside⟩ := exists_not_mem v
      exact absurd ((same x).mpr trivial) outside
    | meet =>
      obtain ⟨x, inside⟩ := List.exists_mem_of_ne_nil v validA.1
      exact ((same x).mp inside).elim
    | set w => rw [validA.2.2.eq validB.2.2 same]

/-- The steps that build a set by going through another one in place. -/
inductive Step where
  | narrow (self a : Kset)
  | extract (self : Kset) (size offset : Nat)

/-- Among the bits that `size` and `offset` select, the highest one where two constants differ is clear in the first.
The last two numbers are masked as the shifts mask them. -/
def Below (size offset : Nat) (x y : Element) : Prop :=
  ∃ i < (size + 63) % 64,
    x.1.toNat.testBit (offset % 64 + i) = false ∧ y.1.toNat.testBit (offset % 64 + i) = true ∧
    ∀ j, i < j → j < (size + 63) % 64 → x.1.toNat.testBit (offset % 64 + j) = y.1.toNat.testBit (offset % 64 + j)

/-- Two sets that are narrowed have a member in common, and the members of a set that is extracted from stay in order
when the bits outside of those that are selected are not looked at. -/
def Step.Keeps : Step → Prop
  | .narrow (.set w) (.set v) => ∃ x ∈ w, x ∈ v
  | .extract (.set v) size offset => ∀ x ∈ v, ∀ y ∈ v, Element.Le x y → x ≠ y → Below size offset x y
  | _ => True

/-- Everything that is built from constants and constraints in allowed steps. -/
inductive Produced (allowed : Step → Prop) : Kset → Prop where
  | value (rv : Rvalue) : Produced allowed (abstractValue rv)
  | constraint (constr : Constraint) : Produced allowed (abstractConstraint constr)
  | execute {orders : Nat → Enumeration Element} {op : Operation Kset} {k : Kset}
      (operands : ∀ k ∈ op.operands, Produced allowed k) (result : Kset.execute orders op = .returns k) :
      Produced allowed k
  | combine (order : Enumeration Element) {a b : Kset} (left : Produced allowed a) (right : Produced allowed b) :
      Produced allowed (combine order a b)
  | widen {a b : Kset} (left : Produced allowed a) (right : Produced allowed b) : Produced allowed (widen a b)
  | narrow {a b : Kset} (left : Produced allowed a) (right : Produced allowed b) (step : allowed (.narrow a b)) :
      Produced allowed (narrow a b)
  | extract {a : Kset} (source : Produced allowed a) (size offset : Nat) (step : allowed (.extract a size offset)) :
      Produced allowed (a.extract size offset)

theorem reduce_wellFormed (value : UInt64) (size : Nat) : WellFormed (.set [reduce value size]) :=
  ⟨List.cons_ne_nil _ _, by simp [maximalCardinality], ascending_singleton Element.Le _⟩

private theorem permute_wellFormed (order : Enumeration Element) (a b : Kset) (f : Rvalue → Rvalue → Rvalue) :
    (permute order a b f).WellFormed := by
  cases a with
  | join => trivial
  | meet => cases b <;> trivial
  | set v =>
    cases b with
    | join => trivial
    | meet => trivial
    | set w =>
      rw [permute_sets]
      exact gather_wellFormed _

private theorem map_wellFormed (order : Enumeration Element) (a : Kset) (f : Rvalue → Rvalue) : (map order a f).WellFormed := by
  cases a with
  | join => trivial
  | meet => trivial
  | set v =>
    rw [map_set]
    exact gather_wellFormed _

private theorem foldl_wellFormed (orders : Nat → Enumeration Element) (operands : List Kset) (i : Nat) {acc : Kset}
    (valid : ∀ k ∈ operands, k.WellFormed) (validAcc : acc.WellFormed) :
    ((operands.zipIdx i).foldl (fun acc (x, i) => combine (orders i) acc x) acc).WellFormed := by
  induction operands generalizing i acc with
  | nil => exact validAcc
  | cons k rest ih =>
    rw [List.zipIdx_cons, List.foldl_cons]
    apply ih
    · exact fun k' member => valid k' (List.mem_cons_of_mem k member)
    · exact combine_wellFormed _ validAcc (valid k (by simp))

private theorem execute_wellFormed {orders : Nat → Enumeration Element} {op : Operation Kset} {k : Kset}
    (valid : ∀ k ∈ op.operands, k.WellFormed) (result : Kset.execute orders op = .returns k) : k.WellFormed := by
  cases op with
  | add a b | subtract a b | multiply a b | divideUnsigned a b | divideSigned a b | shiftLeft a b
  | shiftRightUnsigned a b | shiftRightSigned a b | modulo a b | and a b | inclusiveOr a b | exclusiveOr a b | equal a b
  | lessOrEqualUnsigned a b | lessOrEqualSigned a b | lessUnsigned a b | lessSigned a b | select _ a b
  | store _ _ _ a b =>
    cases result
    exact permute_wellFormed _ a b _
  | zeroExtend _ a | signExtend _ a | move a | call a | load _ _ _ a =>
    cases result
    exact map_wellFormed _ a _
  | initialized name size =>
    cases result
    trivial
  | phi operands =>
    rcases operands with _ | ⟨a, _ | ⟨b, rest⟩⟩
    · cases result
    · cases result
      exact valid k (by simp [Operation.operands])
    · cases result
      have empty : WellFormed .meet := trivial
      exact foldl_wellFormed orders (a :: b :: rest) 0 valid empty

private theorem narrow_wellFormed {a b : Kset} (validA : a.WellFormed) (validB : b.WellFormed) (step : Step.Keeps (.narrow a b)) :
    (narrow a b).WellFormed := by
  cases b with
  | meet => trivial
  | join => exact validA
  | set v =>
    cases a with
    | meet => trivial
    | join => exact validB
    | set w =>
      obtain ⟨some, few, ascending⟩ := validA
      obtain ⟨x, inW, inV⟩ := step
      refine ⟨?_, (List.length_filter_le _ w).trans few, ascending.filter _⟩
      exact List.ne_nil_of_mem (List.mem_filter.mpr ⟨inW, by simpa using inV⟩)

theorem toNat_field (v : UInt64) (size offset : Nat) : ((v >>> offset.toUInt64) % bit (size.toUInt64 - 1)).toNat =
    (v.toNat >>> (offset % 64)) % 2 ^ ((size + 63) % 64) := by
  have low : offset.toUInt64.toNat % 64 = offset % 64 := by simp
  rw [UInt64.toNat_mod, UInt64.toNat_shiftRight, toNat_bit_sub_one, low]

private theorem field_lt_iff {size offset : Nat} {x y : Element} :
    (x.1 >>> offset.toUInt64) % bit (size.toUInt64 - 1) < (y.1 >>> offset.toUInt64) % bit (size.toUInt64 - 1) ↔
      Below size offset x y := by
  rw [UInt64.lt_iff_toNat_lt, toNat_field, toNat_field, mod_lt_mod_iff_testBit]
  simp only [Nat.testBit_shiftRight, Below]

private theorem extract_wellFormed {a : Kset} (valid : a.WellFormed) {size offset : Nat} (step : Step.Keeps (.extract a size offset)) :
    (a.extract size offset).WellFormed := by
  cases a with
  | meet => trivial
  | join => trivial
  | set v =>
    obtain ⟨some, few, ascending, nodup⟩ := valid
    have fields : (v.map fun x => ((x.1 >>> offset.toUInt64) % bit (size.toUInt64 - 1), size)).Pairwise
        fun x y => x.1 < y.1 := by
      rw [List.pairwise_map]
      refine (ascending.and nodup).imp_of_mem fun inX inY before => ?_
      exact field_lt_iff.mpr (step _ inX _ inY before.1 before.2)
    refine ⟨by simpa using some, by simpa using few, ?_, ?_⟩
    · exact fields.imp fun less => .inl less
    · exact fields.imp fun less same => by
        rw [same] at less
        exact absurd less (UInt64.lt_irrefl _)

theorem produced_wellFormed {k : Kset} (produced : Produced Step.Keeps k) : k.WellFormed := by
  induction produced with
  | value rv =>
    cases rv with
    | constant value size => exact reduce_wellFormed value size
    | _ => trivial
  | constraint constr =>
    cases constr with
    | equal rv =>
      cases rv with
      | constant value size => exact reduce_wellFormed value size
      | _ => trivial
    | _ => trivial
  | execute _ result valid => exact execute_wellFormed valid result
  | combine order _ _ validA validB => exact combine_wellFormed order validA validB
  | widen _ _ _ validB => exact validB
  | narrow _ _ step validA validB => exact narrow_wellFormed validA validB step
  | extract _ size offset step valid => exact extract_wellFormed valid step

/-- In every run whose steps meet the condition the invariant holds, and equality tells apart exactly what stands
for different sets. -/
theorem produced_representation {k : Kset} (produced : Produced Step.Keeps k) :
    k.WellFormed ∧ ∀ other, Produced Step.Keeps other → (∀ x, Mem x k ↔ Mem x other) → Kset.eq k other = true := by
  have valid := produced_wellFormed produced
  refine ⟨valid, fun other produced' same => ?_⟩
  exact eq_iff.mpr (eq_of_mem_iff valid (produced_wellFormed produced') same)

/-- Two constants narrowed by each other leave a set without members. -/
theorem narrow_empty : ∃ k, Produced (fun _ => True) k ∧ ¬k.WellFormed := by
  refine ⟨narrow (abstractValue (.constant 1 8)) (abstractValue (.constant 2 8)), .narrow (.value _) (.value _) trivial, ?_⟩
  have value : narrow (abstractValue (.constant 1 8)) (abstractValue (.constant 2 8)) = .set [] := by decide
  rw [value]
  exact fun valid => valid.1 rfl

/-- Two bytes out of three are narrowed to, cut down to five bits and counted up. -/
theorem produced_representation_sum :
    let order : Enumeration Element := .canonical
    let byte (n : UInt64) : Kset := abstractValue (.constant n 8)
    let both := combine order (byte 0x24) (byte 0x36)
    let fields := extract (narrow (combine order (byte 0x12) both) both) 5 4
    ∃ sum, Kset.execute (fun _ => order) (.add fields (abstractValue (.constant 1 5))) = .returns sum ∧ sum.WellFormed ∧
      Kset.eq sum (combine order (abstractValue (.constant 4 5)) (abstractValue (.constant 3 5))) = true := by
  intro order byte both fields
  have three : combine order (byte 0x12) both = .set [(0x12, 8), (0x24, 8), (0x36, 8)] := by decide
  have two : both = .set [(0x24, 8), (0x36, 8)] := by decide
  have narrowed : narrow (combine order (byte 0x12) both) both = .set [(0x24, 8), (0x36, 8)] := by
    rw [three, two]
    decide
  have isBoth : Produced Step.Keeps both := .combine order (.value _) (.value _)
  have isNarrowed : Produced Step.Keeps (narrow (combine order (byte 0x12) both) both) := by
    refine .narrow (.combine order (.value _) isBoth) isBoth ?_
    rw [three, two]
    exact ⟨(0x24, 8), by decide, by decide⟩
  have isFields : Produced Step.Keeps fields := by
    refine .extract isNarrowed 5 4 ?_
    rw [narrowed]
    intro x inX y inY before other
    simp only [List.mem_cons, List.not_mem_nil, or_false] at inX inY
    rcases inX with rfl | rfl <;> rcases inY with rfl | rfl
    · exact absurd rfl other
    · refine ⟨0, by decide, by decide, by decide, fun j high low => ?_⟩
      have inside : j < 4 := low
      interval_cases j <;> rfl
    · exact absurd before (by decide)
    · exact absurd rfl other
  obtain ⟨sum, ran, value⟩ : ∃ sum, Kset.execute (fun _ => order) (.add fields (abstractValue (.constant 1 5))) = .returns sum ∧
      sum = .set [(3, 5), (4, 5)] := ⟨_, rfl, by decide⟩
  have isSum : Produced Step.Keeps sum := by
    refine .execute (fun k operand => ?_) ran
    rcases List.mem_pair.mp operand with rfl | rfl
    · exact isFields
    · exact .value _
  obtain ⟨valid, unique⟩ := produced_representation isSum
  refine ⟨sum, ran, valid, unique _ (.combine order (.value _) (.value _)) ?_⟩
  have other : combine order (abstractValue (.constant 4 5)) (abstractValue (.constant 3 5)) = .set [(3, 5), (4, 5)] := by
    decide
  simp [value, other]

end Representation

end Proofs.Kset

end Panopticon
