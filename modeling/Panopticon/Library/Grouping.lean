import Mathlib

/-! Runs of a list. `List.splitBy` cuts a list between two neighbours that are not
related; which neighbours stay together is a property of the list and the relation. -/

namespace Panopticon.Library

variable {α β : Type}

/-- Neighbours in a concatenation are neighbours inside one part or meet at a seam. -/
theorem pair_infix_flatten {parts : List (List α)} (filled : [] ∉ parts) {x y : α}
    (adjacent : [x, y] <:+: parts.flatten) :
    (∃ part ∈ parts, [x, y] <:+: part) ∨
      ∃ left right, [left, right] <:+: parts ∧ x ∈ left.getLast? ∧ y ∈ right.head? := by
  induction parts with
  | nil => simp at adjacent
  | cons part parts ih =>
    have filled' : [] ∉ parts := fun member => filled (by simp [member])
    rw [List.flatten_cons, List.infix_append_iff_ne_nil] at adjacent
    rcases adjacent with inside | later | ⟨first, second, filledFirst, filledSecond, split, last, front⟩
    · exact .inl ⟨part, by simp, inside⟩
    · rcases ih filled' later with ⟨other, member, inside⟩ | ⟨left, right, neighbours, ends⟩
      · exact .inl ⟨other, by simp [member], inside⟩
      · exact .inr ⟨left, right, neighbours.trans (List.suffix_cons _ _).isInfix, ends⟩
    · -- both halves of the pair are single elements
      obtain ⟨rfl, rfl⟩ : first = [x] ∧ second = [y] := by
        cases first with
        | nil => exact absurd rfl filledFirst
        | cons a first =>
          cases first with
          | nil => simpa [eq_comm] using split
          | cons b first => simp_all
      cases parts with
      | nil => simp at front
      | cons next parts =>
        have nonempty : next ≠ [] := by
          rintro rfl
          exact filled' (by simp)
        refine .inr ⟨part, next, ⟨[], parts, by simp⟩, ?_, ?_⟩
        · obtain ⟨before, rfl⟩ := last
          simp
        · obtain ⟨after, same⟩ := front
          cases next with
          | nil => exact absurd rfl nonempty
          | cons head next => simp_all

theorem infix_flatten {parts : List (List α)} {part : List α} (member : part ∈ parts) : part <:+: parts.flatten := by
  obtain ⟨before, after, rfl⟩ := List.append_of_mem member
  exact ⟨before.flatten, after.flatten, by simp⟩

theorem pair_infix_splitBy (r : α → α → Bool) (list : List α) (x y : α) :
    (∃ part ∈ list.splitBy r, [x, y] <:+: part) ↔ [x, y] <:+: list ∧ r x y = true := by
  constructor
  · rintro ⟨part, member, adjacent⟩
    have related := List.IsChain.infix (List.isChain_of_mem_splitBy member) adjacent
    have whole := infix_flatten member
    rw [List.flatten_splitBy] at whole
    exact ⟨adjacent.trans whole, by simpa using related⟩
  · rintro ⟨adjacent, related⟩
    rw [← List.flatten_splitBy r list] at adjacent
    refine (pair_infix_flatten (List.nil_notMem_splitBy r list) adjacent).resolve_right ?_
    rintro ⟨left, right, neighbours, last, first⟩
    have seam := List.IsChain.infix (List.isChain_getLast_head_splitBy r list) neighbours
    obtain ⟨_, _, cut⟩ := List.isChain_pair.mp seam
    rw [List.getLast_of_mem_getLast? last, List.head_of_mem_head? first, related] at cut
    cases cut

theorem pair_infix_sorted {lt : α → α → Prop} (asymmetric : ∀ x y, lt x y → ¬ lt y x) {list : List α}
    (sorted : list.Pairwise lt) (x y : α) :
    [x, y] <:+: list ↔ x ∈ list ∧ y ∈ list ∧ lt x y ∧ ∀ z ∈ list, ¬ (lt x z ∧ lt z y) := by
  constructor
  · rintro ⟨before, after, rfl⟩
    simp only [List.pairwise_append, List.pairwise_cons, List.mem_append, List.mem_cons, List.not_mem_nil,
      or_false] at sorted
    refine ⟨by simp, by simp, sorted.1.2.1.1 y rfl, ?_⟩
    rintro z member ⟨above, below⟩
    simp only [List.mem_append, List.mem_cons, List.not_mem_nil, or_false] at member
    rcases member with (member | rfl | rfl) | member
    · exact asymmetric _ _ above (sorted.1.2.2 z member x (.inl rfl))
    · exact asymmetric _ _ above above
    · exact asymmetric _ _ below below
    · exact asymmetric _ _ below (sorted.2.2 y (.inr (.inr rfl)) z member)
  · rintro ⟨first, second, less, between⟩
    obtain ⟨before, after, rfl⟩ := List.append_of_mem first
    simp only [List.pairwise_append, List.pairwise_cons, List.mem_cons] at sorted
    have later : y ∈ after := by
      simp only [List.mem_append, List.mem_cons] at second
      rcases second with member | rfl | member
      · exact absurd less (asymmetric _ _ (sorted.2.2 y member x (.inl rfl)))
      · exact absurd less (asymmetric _ _ less)
      · exact member
    cases after with
    | nil => simp at later
    | cons next after =>
      rcases List.mem_cons.mp later with rfl | member
      · exact ⟨before, after, by simp⟩
      · have above := sorted.2.1.1 next (by simp)
        have below := (List.pairwise_cons.mp sorted.2.1.2).1 y member
        exact absurd ⟨above, below⟩ (between next (by simp))

theorem getLast_or_pair {list : List α} {x : α} (member : x ∈ list) :
    list.getLast? = some x ∨ ∃ y, [x, y] <:+: list := by
  obtain ⟨before, after, rfl⟩ := List.append_of_mem member
  cases after with
  | nil => exact .inl (by simp)
  | cons y after => exact .inr ⟨y, before, after, by simp⟩

theorem head_or_pair {list : List α} {y : α} (member : y ∈ list) :
    list.head? = some y ∨ ∃ x, [x, y] <:+: list := by
  obtain ⟨before, after, rfl⟩ := List.append_of_mem member
  rcases List.eq_nil_or_concat before with rfl | ⟨before, x, rfl⟩
  · exact .inl rfl
  · exact .inr ⟨x, before, after, by simp⟩

theorem not_pair_of_getLast {list : List α} (nodup : list.Nodup) {x : α} (last : list.getLast? = some x) (y : α) :
    ¬ [x, y] <:+: list := by
  rintro ⟨before, after, rfl⟩
  have member : x ∈ y :: after := by
    rw [List.append_assoc, List.cons_append, List.singleton_append, List.getLast?_append_of_ne_nil _ (by simp),
      List.getLast?_cons_cons] at last
    exact List.mem_of_getLast? last
  simp only [List.append_assoc, List.cons_append, List.nil_append, List.nodup_append, List.nodup_cons] at nodup
  exact nodup.2.1.1 member

theorem not_pair_of_head {list : List α} (nodup : list.Nodup) {y : α} (first : list.head? = some y) (x : α) :
    ¬ [x, y] <:+: list := by
  rintro ⟨before, after, rfl⟩
  have member : y ∈ before ++ [x] := by
    rw [show before ++ [x, y] ++ after = (before ++ [x]) ++ (y :: after) by simp,
      List.head?_append_of_ne_nil _ (by simp)] at first
    exact List.mem_of_head? first
  rw [show before ++ [x, y] ++ after = (before ++ [x]) ++ (y :: after) by simp, List.nodup_append] at nodup
  exact nodup.2.2 y member y (by simp) rfl

/-- Parts that together list nothing twice are told apart by any of their elements. -/
theorem index_unique {list : List α} {items : α → List β} (nodup : (list.flatMap items).Nodup) {i j : Nat} {a b : α}
    {x : β} (first : list[i]? = some a) (second : list[j]? = some b) (left : x ∈ items a) (right : x ∈ items b) :
    i = j := by
  rw [List.nodup_flatMap, List.pairwise_iff_getElem] at nodup
  obtain ⟨inside, rfl⟩ := List.getElem?_eq_some_iff.mp first
  obtain ⟨inside', rfl⟩ := List.getElem?_eq_some_iff.mp second
  rcases Nat.lt_trichotomy i j with less | same | less
  · exact absurd right (nodup.2 i j inside inside' less left)
  · exact same
  · exact absurd left (nodup.2 j i inside' inside less right)

theorem filterMap_range (list : List α) : (List.range list.length).filterMap (fun i => list[i]?) = list := by
  induction list with
  | nil => rfl
  | cons x list ih =>
    rw [List.length_cons, List.range_succ_eq_map, List.filterMap_cons, List.filterMap_map]
    simpa using ih

/-- A renumbering of the positions after the first. -/
def renumberTail (renumber : Nat ≃ Nat) : Nat ≃ Nat where
  toFun
    | 0 => 0
    | i + 1 => renumber i + 1
  invFun
    | 0 => 0
    | i + 1 => renumber.symm i + 1
  left_inv := by
    rintro (_ | i) <;> simp
  right_inv := by
    rintro (_ | i) <;> simp

theorem exists_renumbering {first second : List α} (perm : first.Perm second) :
    ∃ renumber : Nat ≃ Nat, ∀ i : Nat, second[renumber i]? = first[i]? := by
  induction perm with
  | nil => exact ⟨.refl _, fun _ => rfl⟩
  | cons x _ ih =>
    obtain ⟨renumber, same⟩ := ih
    refine ⟨renumberTail renumber, ?_⟩
    rintro (_ | i)
    · rfl
    · simpa [renumberTail] using same i
  | swap x y list =>
    refine ⟨.swap 0 1, ?_⟩
    rintro (_ | _ | i)
    · simp
    · simp
    · rw [Equiv.swap_apply_of_ne_of_ne (by omega) (by omega)]
      simp
  | trans _ _ ih ih' =>
    obtain ⟨renumber, same⟩ := ih
    obtain ⟨renumber', same'⟩ := ih'
    exact ⟨renumber.trans renumber', fun i => (same' _).trans (same i)⟩

theorem flatMap_eq_append_cons {α β : Type*} {f : α → List β} {items : List α} {pre post : List β} {b : β}
    (split : items.flatMap f = pre ++ b :: post) :
    ∃ front a back above below, items = front ++ a :: back ∧ f a = above ++ b :: below ∧
      pre = front.flatMap f ++ above ∧ post = below ++ back.flatMap f := by
  induction items generalizing pre with
  | nil => simp at split
  | cons a items ih =>
    rw [List.flatMap_cons] at split
    rcases List.append_eq_append_iff.mp split with ⟨rest, rfl, tail⟩ | ⟨rest, here, tail⟩
    · obtain ⟨front, a', back, above, below, rfl, inside, rfl, rfl⟩ := ih tail
      exact ⟨a :: front, a', back, above, below, rfl, inside, by simp, rfl⟩
    · cases rest with
      | nil =>
        have rest : items.flatMap f = [] ++ b :: post := by simpa using tail.symm
        obtain ⟨front, a', back, above, below, rfl, inside, above_eq, rfl⟩ := ih rest
        refine ⟨a :: front, a', back, above, below, rfl, inside, ?_, rfl⟩
        simp only [List.append_nil] at here
        simp [here, ← above_eq]
      | cons b' rest =>
        cases tail
        exact ⟨[], a, items, pre, rest, rfl, here, by simp, rfl⟩

end Panopticon.Library
