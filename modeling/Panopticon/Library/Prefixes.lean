import Mathlib

/-! A tree of words, given by the words that its vertices spell from the root on. -/

namespace Panopticon.Library

variable {α β γ : Type}

theorem flatMap_swap_perm (as : List α) (bs : List β) (f : α → β → List γ) :
    (as.flatMap fun a => bs.flatMap (f a)).Perm (bs.flatMap fun b => as.flatMap fun a => f a b) := by
  induction as with
  | nil => simp
  | cons a as ih =>
    simp only [List.flatMap_cons]
    exact (ih.append_left _).trans (List.flatMap_append_perm bs (f a) fun b => as.flatMap fun a => f a b)

/-- The words are different, the root comes first, and every word has its prefixes before it or after it. -/
structure Prefixes (words : List (List α)) : Prop where
  nodup : words.Nodup
  root : words[0]? = some []
  closed : ∀ p a, p ++ [a] ∈ words → p ∈ words

/-- The words of one length. -/
def level (words : List (List α)) (k : Nat) : List (List α) := words.filter fun p => p.length = k

/-- The words one longer than this one. -/
def continuations [DecidableEq α] (words : List (List α)) (p : List α) : List (List α) :=
  words.filter fun q => q.dropLast = p ∧ q ≠ []

theorem mem_level {words : List (List α)} {k : Nat} {p : List α} : p ∈ level words k ↔ p ∈ words ∧ p.length = k := by
  simp [level]

theorem mem_continuations [DecidableEq α] {words : List (List α)} {p q : List α} :
    q ∈ continuations words p ↔ q ∈ words ∧ ∃ a, q = p ++ [a] := by
  simp only [continuations, List.mem_filter, decide_eq_true_eq]
  refine and_congr_right fun _ => ?_
  constructor
  · rintro ⟨rfl, filled⟩
    exact ⟨q.getLast filled, (List.dropLast_append_getLast filled).symm⟩
  · rintro ⟨a, rfl⟩
    simp

namespace Prefixes
variable {words : List (List α)}

theorem single : Prefixes [([] : List α)] := by
  constructor <;> simp

theorem mem_root (tree : Prefixes words) : [] ∈ words := List.mem_of_getElem? tree.root

theorem mem_of_append (tree : Prefixes words) (p q : List α) (member : p ++ q ∈ words) : p ∈ words := by
  induction q using List.reverseRecOn with
  | nil => rwa [List.append_nil] at member
  | append_singleton q a ih =>
    rw [← List.append_assoc] at member
    exact ih (tree.closed _ a member)

theorem length_lt (tree : Prefixes words) {p : List α} (member : p ∈ words) : p.length < words.length := by
  have inside : (List.range (p.length + 1)).map p.take ⊆ words := by
    intro q start
    obtain ⟨i, _, rfl⟩ := List.mem_map.mp start
    exact tree.mem_of_append _ (p.drop i) (by rwa [List.take_append_drop])
  have distinct : ((List.range (p.length + 1)).map p.take).Nodup := by
    refine List.Nodup.map_on ?_ List.nodup_range
    intro i first j second same
    have lengths := congrArg List.length same
    rw [List.length_take, List.length_take] at lengths
    rw [List.mem_range] at first second
    omega
  have bound := (distinct.subperm inside).length_le
  rw [List.length_map, List.length_range] at bound
  exact bound

theorem concat (tree : Prefixes words) {p : List α} {a : α} (known : p ∈ words) (fresh : p ++ [a] ∉ words) :
    Prefixes (words ++ [p ++ [a]]) := by
  constructor
  · exact tree.nodup.append (List.nodup_singleton _) (by simpa using fresh)
  · rw [List.getElem?_append_left]
    · exact tree.root
    · exact List.length_pos_of_mem known
  · intro q b member
    rw [List.mem_append] at member ⊢
    rcases member with member | member
    · exact .inl (tree.closed q b member)
    · obtain ⟨rfl, _⟩ := List.append_inj' (List.mem_singleton.mp member) rfl
      exact .inl known

theorem level_succ [DecidableEq α] (tree : Prefixes words) (k : Nat) :
    (level words (k + 1)).Perm ((level words k).flatMap (continuations words)) := by
  have distinct : ((level words k).flatMap (continuations words)).Nodup := by
    rw [List.nodup_flatMap]
    refine ⟨fun p _ => tree.nodup.filter _, (tree.nodup.filter _).imp fun {p q} apart => ?_⟩
    intro r first second
    obtain ⟨a, rfl⟩ := (mem_continuations.mp first).2
    obtain ⟨b, same⟩ := (mem_continuations.mp second).2
    exact apart (List.append_inj' same rfl).1
  have distinct' : (level words (k + 1)).Nodup := tree.nodup.filter _
  refine (List.perm_ext_iff_of_nodup distinct' distinct).mpr fun q => ?_
  simp only [List.mem_flatMap, mem_level, mem_continuations]
  constructor
  · intro longer
    obtain ⟨p, a, rfl⟩ : ∃ p a, q = p ++ [a] := by
      have filled : q ≠ [] := by
        rintro rfl
        simp at longer
      exact ⟨q.dropLast, q.getLast filled, (List.dropLast_append_getLast filled).symm⟩
    refine ⟨p, ⟨tree.closed p a longer.1, ?_⟩, longer.1, a, rfl⟩
    have length := longer.2
    rw [List.length_append, List.length_singleton] at length
    omega
  · rintro ⟨p, below, member, a, rfl⟩
    refine ⟨member, ?_⟩
    rw [List.length_append, below.2, List.length_singleton]

theorem levels_perm (words : List (List α)) (k : Nat) :
    ((List.range k).flatMap (level words)).Perm (words.filter fun p => p.length < k) := by
  induction k with
  | zero => simp
  | succ k ih =>
    rw [List.range_succ, List.flatMap_append, List.flatMap_singleton]
    refine (ih.append_right _).trans ?_
    have parts := List.filter_append_perm (fun p => decide (p.length < k)) (words.filter fun p => decide (p.length < k + 1))
    rw [List.filter_filter, List.filter_filter] at parts
    have shorter : (fun p : List α => decide (p.length < k) && decide (p.length < k + 1)) = fun p => decide (p.length < k) := by
      funext p
      rw [← Bool.decide_and]
      exact decide_eq_decide.mpr (by omega)
    have last : (fun p : List α => !decide (p.length < k) && decide (p.length < k + 1)) = fun p => decide (p.length = k) := by
      funext p
      rw [← decide_not, ← Bool.decide_and]
      exact decide_eq_decide.mpr (by omega)
    rwa [shorter, last] at parts

end Prefixes
end Panopticon.Library
