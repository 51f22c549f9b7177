import Mathlib

/-! Dominance in a rooted graph, and tables of parents whose ancestors dominate. -/

namespace Panopticon.Library
open Relation

section
variable {α : Type*} (edge : α → α → Prop) (start : α)

/-- The vertices of a walk from `start`, the last one first. -/
inductive Trace : α → List α → Prop
  | root : Trace start [start]
  | step {u v : α} {walk : List α} : Trace u walk → edge u v → Trace v (v :: walk)

def Reachable (v : α) : Prop := ∃ walk, Trace edge start v walk

/-- Every walk from `start` to `v` meets `d`. -/
def Dominates (d v : α) : Prop := ∀ walk, Trace edge start v walk → d ∈ walk

def StrictlyDominates (d v : α) : Prop := Dominates edge start d v ∧ d ≠ v

variable {edge start}

theorem Trace.mem {v : α} {walk : List α} (trace : Trace edge start v walk) : v ∈ walk := by
  cases trace <;> simp

theorem Trace.upto {u v : α} {walk : List α} (trace : Trace edge start v walk) (member : u ∈ walk) :
    ∃ before, Trace edge start u before ∧ before <:+ walk := by
  induction trace with
  | root =>
    cases List.mem_singleton.mp member
    exact ⟨_, .root, List.suffix_rfl⟩
  | step trace link ih =>
    rcases List.mem_cons.mp member with rfl | member
    · exact ⟨_, .step trace link, List.suffix_rfl⟩
    · obtain ⟨before, found, suffix⟩ := ih member
      exact ⟨before, found, suffix.trans (List.suffix_cons _ _)⟩

theorem Reachable.step {u v : α} (reachable : Reachable edge start u) (link : edge u v) :
    Reachable edge start v := by
  obtain ⟨walk, trace⟩ := reachable
  exact ⟨_, trace.step link⟩

theorem reachable_iff {v : α} : Reachable edge start v ↔ ReflTransGen edge start v := by
  constructor
  · intro holds
    obtain ⟨walk, trace⟩ := holds
    induction trace with
    | root => exact .refl
    | step _ link ih => exact ih.tail link
  · intro path
    induction path with
    | refl => exact ⟨_, .root⟩
    | tail _ link ih => exact ih.step link

theorem Reachable.of_dominates {d v : α} (reachable : Reachable edge start v) (dominates : Dominates edge start d v) :
    Reachable edge start d := by
  obtain ⟨walk, trace⟩ := reachable
  obtain ⟨before, found, -⟩ := trace.upto (dominates walk trace)
  exact ⟨before, found⟩

theorem Dominates.refl (v : α) : Dominates edge start v v := fun _ trace => trace.mem

theorem StrictlyDominates.pred {d p v : α} (strict : StrictlyDominates edge start d v) (link : edge p v) :
    Dominates edge start d p := by
  intro walk trace
  rcases List.mem_cons.mp (strict.1 _ (trace.step link)) with same | member
  · exact absurd same strict.2
  · exact member

theorem dominates_start {d : α} (dominates : Dominates edge start d start) : d = start :=
  List.mem_singleton.mp (dominates _ .root)

theorem start_dominates (v : α) : Dominates edge start start v := by
  intro walk trace
  induction trace with
  | root => exact List.mem_singleton_self start
  | step _ _ ih => exact List.mem_cons_of_mem _ ih

theorem Dominates.antisymm {a b : α} (reachable : Reachable edge start a) (first : Dominates edge start a b)
    (second : Dominates edge start b a) : a = b := by
  by_contra other
  obtain ⟨walk, trace⟩ := reachable
  induction length : walk.length using Nat.strongRecOn generalizing walk with
  | ind length ih =>
    cases trace with
    | root => exact other (dominates_start second).symm
    | @step u _ rest trace link =>
      have inside : b ∈ rest := (List.mem_cons.mp (second _ (.step trace link))).resolve_left (Ne.symm other)
      obtain ⟨toB, traceB, suffixB⟩ := trace.upto inside
      obtain ⟨toA, traceA, suffixA⟩ := traceB.upto (first _ traceB)
      have shorter := (suffixA.trans suffixB).length_le
      exact ih toA.length (by rw [← length, List.length_cons]; omega) toA traceA rfl

end

section
variable {α : Type*} (edge : α → α → Prop) (start : α) (parent : α → Option α)

/-- One step up in a table of parents, which ends at `start`. -/
def Up (v d : α) : Prop := v ≠ start ∧ parent v = some d

abbrev Above : α → α → Prop := ReflTransGen (Up start parent)

/-- A vertex followed by its ancestors up to `start`. -/
inductive Lineage : α → List α → Prop
  | root : Lineage start [start]
  | child {v d : α} {ancestors : List α} : v ≠ start → parent v = some d → Lineage d ancestors →
      Lineage v (v :: ancestors)

/-- The parent of every vertex is an ancestor of all its predecessors. -/
def Settled : Prop :=
  ∀ p b, Reachable edge start p → edge p b → p ≠ b → b ≠ start → ∃ d, parent b = some d ∧ Above start parent p d

variable {edge start parent}

theorem above_start {a : α} (above : Above start parent start a) : a = start := by
  rcases above.cases_head with same | ⟨_, up, _⟩
  · exact same.symm
  · exact absurd rfl up.1

theorem Settled.mem_walk (settled : Settled edge start parent) {v a : α} {walk : List α}
    (trace : Trace edge start v walk) (above : Above start parent v a) : a ∈ walk := by
  induction trace generalizing a with
  | root =>
    rw [above_start above]
    exact List.mem_singleton_self start
  | @step u v walk trace link ih =>
    rcases above.cases_head with rfl | ⟨d, ⟨inner, found⟩, rest⟩
    · exact List.mem_cons_self
    · apply List.mem_cons_of_mem
      by_cases same : u = v
      · subst v
        exact ih (.head ⟨inner, found⟩ rest)
      · obtain ⟨d', found', above'⟩ := settled u v ⟨_, trace⟩ link same inner
        rw [found] at found'
        cases found'
        exact ih (above'.trans rest)

theorem Settled.dominates (settled : Settled edge start parent) {v a : α} (above : Above start parent v a) :
    Dominates edge start a v := fun _ trace => settled.mem_walk trace above

/-- The parent of a vertex has a shorter walk, so going up ends at `start`. -/
theorem Settled.lineage (settled : Settled edge start parent) {v : α} (reachable : Reachable edge start v) :
    ∃ ancestors, Lineage start parent v ancestors := by
  obtain ⟨walk, trace⟩ := reachable
  induction bound : walk.length using Nat.strongRecOn generalizing v walk with
  | ind bound ih =>
    subst bound
    cases trace with
    | root => exact ⟨_, .root⟩
    | @step u _ walk trace link =>
      by_cases root : v = start
      · subst v
        exact ⟨_, .root⟩
      · by_cases same : u = v
        · subst v
          exact ih walk.length (by simp) walk trace rfl
        · obtain ⟨d, found, above⟩ := settled u v ⟨_, trace⟩ link same root
          obtain ⟨before, shorter, suffix⟩ := trace.upto (settled.mem_walk trace above)
          have length := suffix.length_le
          obtain ⟨ancestors, lineage⟩ := ih before.length (by simp; omega) before shorter rfl
          exact ⟨_, .child root found lineage⟩

namespace Lineage

theorem unique {v : α} {ancestors others : List α} (lineage : Lineage start parent v ancestors)
    (other : Lineage start parent v others) : ancestors = others := by
  induction lineage generalizing others with
  | root =>
    cases other with
    | root => rfl
    | child inner _ _ => exact absurd rfl inner
  | child inner found _ ih =>
    cases other with
    | root => exact absurd rfl inner
    | child _ found' rest =>
      rw [found] at found'
      cases found'
      rw [ih rest]

theorem mem {v : α} {ancestors : List α} (lineage : Lineage start parent v ancestors) : v ∈ ancestors := by
  cases lineage <;> simp

theorem mem_iff {v a : α} {ancestors : List α} (lineage : Lineage start parent v ancestors) :
    a ∈ ancestors ↔ Above start parent v a := by
  induction lineage with
  | root =>
    rw [List.mem_singleton]
    exact ⟨fun same => same ▸ .refl, above_start⟩
  | child inner found _ ih =>
    rw [List.mem_cons, ih]
    constructor
    · intro member
      rcases member with rfl | above
      · exact .refl
      · exact .head ⟨inner, found⟩ above
    · intro above
      rcases above.cases_head with same | ⟨d, ⟨_, found'⟩, rest⟩
      · exact .inl same.symm
      · rw [found] at found'
        cases found'
        exact .inr rest

theorem upto {v a : α} {ancestors : List α} (lineage : Lineage start parent v ancestors) (member : a ∈ ancestors) :
    ∃ rest, Lineage start parent a rest ∧ rest <:+ ancestors := by
  induction lineage with
  | root =>
    cases List.mem_singleton.mp member
    exact ⟨_, .root, List.suffix_rfl⟩
  | child inner found lineage ih =>
    rcases List.mem_cons.mp member with rfl | member
    · exact ⟨_, .child inner found lineage, List.suffix_rfl⟩
    · obtain ⟨rest, lineage', suffix⟩ := ih member
      exact ⟨rest, lineage', suffix.trans (List.suffix_cons _ _)⟩

theorem child_of_mem {v a : α} {ancestors : List α} (lineage : Lineage start parent v ancestors) (member : a ∈ ancestors)
    (other : a ≠ v) : ∃ k ∈ ancestors, k ≠ start ∧ parent k = some a := by
  induction lineage with
  | root => exact absurd (List.mem_singleton.mp member) other
  | @child v d ancestors inner found lineage ih =>
    have above := (List.mem_cons.mp member).resolve_left other
    by_cases same : a = d
    · exact ⟨v, List.mem_cons_self, inner, same ▸ found⟩
    · obtain ⟨k, inside, lower, up⟩ := ih above same
      exact ⟨k, List.mem_cons_of_mem _ inside, lower, up⟩

theorem start_mem {v : α} {ancestors : List α} (lineage : Lineage start parent v ancestors) : start ∈ ancestors := by
  induction lineage with
  | root => simp
  | child _ _ _ ih => exact List.mem_cons_of_mem _ ih

theorem notMem_parent {v d : α} {ancestors : List α} (inner : v ≠ start) (found : parent v = some d)
    (lineage : Lineage start parent d ancestors) : v ∉ ancestors := by
  intro member
  obtain ⟨rest, lineage', suffix⟩ := lineage.upto member
  have same := lineage'.unique (.child inner found lineage)
  have length := suffix.length_le
  rw [same, List.length_cons] at length
  omega

theorem nodup {v : α} {ancestors : List α} (lineage : Lineage start parent v ancestors) : ancestors.Nodup := by
  induction lineage with
  | root => simp
  | child inner found lineage ih => exact List.nodup_cons.mpr ⟨lineage.notMem_parent inner found, ih⟩

end Lineage
end
end Panopticon.Library
