import Mathlib

/-! Gaps between half open intervals, found by a sweep that remembers only where the
interval before ended. -/

namespace Panopticon.Library

section
variable {α : Type*} [LinearOrder α]

/-- `x` lies in the interval. -/
def Inside (x : α) (interval : α × α) : Prop := interval.1 ≤ x ∧ x < interval.2

/-- The interval, unless it is empty. -/
def span (start stop : α) : List (α × α) := if start < stop then [(start, stop)] else []

/-- Where the gap ends that comes before `intervals`. -/
def gapEnd (size : α) (intervals : List (α × α)) : α := (intervals.head?.map Prod.fst).getD size

/-- The gaps from `last` up to `size`. -/
def gaps (size : α) : (last : α) → List (α × α) → List (α × α)
  | last, [] => span last size
  | last, interval :: rest => span last interval.1 ++ gaps size interval.2 rest

/-- An interval with a gap behind it ends no earlier than those before it. -/
def Outlasting (size : α) (intervals : List (α × α)) : Prop :=
  ∀ before interval after, intervals = before ++ interval :: after → interval.2 < gapEnd size after →
    ∀ other ∈ before, other.2 ≤ interval.2

/-- Proper intervals inside `size`, in the order of their starts. -/
structure Swept (size : α) (intervals : List (α × α)) : Prop where
  sorted : intervals.Pairwise fun a b => a.1 ≤ b.1
  proper : ∀ interval ∈ intervals, interval.1 ≤ interval.2 ∧ interval.2 ≤ size

variable {size last : α} {intervals : List (α × α)}

theorem mem_span {start stop : α} {gap : α × α} : gap ∈ span start stop ↔ gap = (start, stop) ∧ start < stop := by
  unfold span
  split_ifs with nonempty <;> simp [nonempty]

theorem Swept.tail {interval : α × α} (swept : Swept size (interval :: intervals)) : Swept size intervals :=
  ⟨swept.sorted.of_cons, fun other member => swept.proper other (List.mem_cons_of_mem _ member)⟩

theorem Swept.start_le_gapEnd {interval : α × α} (swept : Swept size (interval :: intervals)) :
    interval.1 ≤ gapEnd size intervals := by
  cases intervals with
  | nil => exact (swept.proper interval List.mem_cons_self).1.trans (swept.proper interval List.mem_cons_self).2
  | cons next rest => exact (List.pairwise_cons.mp swept.sorted).1 next List.mem_cons_self

theorem Swept.gapEnd_le (swept : Swept size intervals) : gapEnd size intervals ≤ size := by
  cases intervals with
  | nil => exact le_refl size
  | cons next rest => exact (swept.proper next List.mem_cons_self).1.trans (swept.proper next List.mem_cons_self).2

theorem Swept.gapEnd_le_start (swept : Swept size intervals) {interval : α × α} (member : interval ∈ intervals) :
    gapEnd size intervals ≤ interval.1 := by
  cases intervals with
  | nil => cases member
  | cons next rest =>
    rcases List.mem_cons.mp member with rfl | later
    · exact le_refl _
    · exact (List.pairwise_cons.mp swept.sorted).1 interval later

theorem mem_gaps {gap : α × α} : gap ∈ gaps size last intervals ↔
    (gap = (last, gapEnd size intervals) ∧ gap.1 < gap.2) ∨
      ∃ before interval after, intervals = before ++ interval :: after ∧
        gap = (interval.2, gapEnd size after) ∧ gap.1 < gap.2 := by
  induction intervals generalizing last with
  | nil =>
    simp only [gaps, mem_span, gapEnd, List.head?_nil, Option.map_none, Option.getD_none]
    constructor
    · intro holds
      obtain ⟨same, nonempty⟩ := holds
      exact .inl ⟨same, same ▸ nonempty⟩
    · intro found
      rcases found with ⟨rfl, nonempty⟩ | ⟨before, interval, after, split, -⟩
      · exact ⟨rfl, nonempty⟩
      · simp at split
  | cons first rest ih =>
    simp only [gaps, List.mem_append, mem_span, ih]
    constructor
    · intro found
      rcases found with ⟨rfl, nonempty⟩ | ⟨same, nonempty⟩ | ⟨before, interval, after, rfl, found⟩
      · exact .inl ⟨rfl, nonempty⟩
      · exact .inr ⟨[], first, rest, rfl, same, nonempty⟩
      · exact .inr ⟨first :: before, interval, after, rfl, found⟩
    · intro found
      rcases found with ⟨rfl, nonempty⟩ | ⟨before, interval, after, split, same, nonempty⟩
      · exact .inl ⟨rfl, nonempty⟩
      · cases before with
        | nil =>
          cases split
          exact .inr (.inl ⟨same, nonempty⟩)
        | cons head before =>
          cases split
          exact .inr (.inr ⟨before, interval, after, rfl, same, nonempty⟩)

theorem exists_gap {x : α} (low : last ≤ x) (high : x < size) (free : ∀ interval ∈ intervals, ¬Inside x interval) :
    ∃ gap ∈ gaps size last intervals, Inside x gap := by
  induction intervals generalizing last with
  | nil => exact ⟨(last, size), mem_span.mpr ⟨rfl, low.trans_lt high⟩, low, high⟩
  | cons first rest ih =>
    rcases lt_or_ge x first.1 with before | behind
    · exact ⟨(last, first.1), List.mem_append_left _ (mem_span.mpr ⟨rfl, low.trans_lt before⟩), low, before⟩
    · have ended : first.2 ≤ x := by
        by_contra inside
        exact free first List.mem_cons_self ⟨behind, not_le.mp inside⟩
      obtain ⟨gap, member, inside⟩ := ih ended fun interval later => free interval (List.mem_cons_of_mem _ later)
      exact ⟨gap, List.mem_append_right _ member, inside⟩

/-- A gap starts at `last` or behind the start of the first interval. -/
theorem Swept.gapEnd_le_gap (swept : Swept size intervals) {gap : α × α} (member : gap ∈ gaps size last intervals) :
    gap.1 = last ∨ gapEnd size intervals ≤ gap.1 := by
  rcases mem_gaps.mp member with ⟨same, -⟩ | ⟨before, interval, after, split, same, -⟩
  · exact .inl (same ▸ rfl)
  · have inside : interval ∈ intervals := by simp [split]
    have proper := (swept.proper interval inside).1
    exact .inr (same ▸ (swept.gapEnd_le_start inside).trans proper)

theorem Swept.gaps_pairwise (swept : Swept size intervals) :
    (gaps size last intervals).Pairwise fun a b => a.2 ≤ b.1 := by
  induction intervals generalizing last with
  | nil =>
    unfold gaps span
    split_ifs <;> simp
  | cons first rest ih =>
    refine List.pairwise_append.mpr ⟨?_, ih swept.tail, ?_⟩
    · unfold span
      split_ifs <;> simp
    · intro a front b back
      rw [(mem_span.mp front).1]
      rcases swept.tail.gapEnd_le_gap back with same | later
      · exact same ▸ (swept.proper first List.mem_cons_self).1
      · exact swept.start_le_gapEnd.trans later

variable (last) in
/-- The sweep finds nothing but gaps iff every interval it forgets too early is outlasted. -/
theorem Swept.gaps_free_iff (swept : Swept size intervals) :
    (∀ gap ∈ gaps size last intervals, ∀ x, Inside x gap → ∀ interval ∈ intervals, ¬Inside x interval) ↔
      Outlasting size intervals := by
  constructor
  · intro free before interval after split behind other member
    by_contra longer
    have gap : (interval.2, gapEnd size after) ∈ gaps size last intervals :=
      mem_gaps.mpr (.inr ⟨before, interval, after, split, rfl, behind⟩)
    refine free _ gap interval.2 ⟨le_refl _, behind⟩ other (by simp [split, member]) ⟨?_, not_le.mp longer⟩
    have sorted := (List.pairwise_append.mp (split ▸ swept.sorted)).2.2 other member interval List.mem_cons_self
    exact sorted.trans (swept.proper interval (by simp [split])).1
  · intro outlasting gap member x inside other present within
    rcases mem_gaps.mp member with ⟨rfl, -⟩ | ⟨before, interval, after, split, rfl, behind⟩
    · exact absurd ((swept.gapEnd_le_start present).trans within.1) (not_le.mpr inside.2)
    · have parts : Swept size (interval :: after) := by
        refine ⟨(List.pairwise_append.mp (split ▸ swept.sorted)).2.1, ?_⟩
        intro other member
        exact swept.proper other (by rw [split]; exact List.mem_append_right _ member)
      rcases List.mem_append.mp (split ▸ present) with early | late
      · exact absurd (within.2.trans_le (outlasting before interval after split behind other early)) (not_lt.mpr inside.1)
      · rcases List.mem_cons.mp late with rfl | late
        · exact absurd within.2 (not_lt.mpr inside.1)
        · exact absurd ((parts.tail.gapEnd_le_start late).trans within.1) (not_le.mpr inside.2)

/-- Gaps lie behind `last` and end before `size`. -/
theorem Swept.gap_bounds (swept : Swept size intervals) {gap : α × α} (first : ∀ interval ∈ intervals, last ≤ interval.1)
    (member : gap ∈ gaps size last intervals) : last ≤ gap.1 ∧ gap.2 ≤ size := by
  rcases mem_gaps.mp member with ⟨rfl, -⟩ | ⟨before, interval, after, split, rfl, -⟩
  · exact ⟨le_refl _, swept.gapEnd_le⟩
  · have inside : interval ∈ intervals := by simp [split]
    have rest : Swept size after := by
      refine ⟨(List.pairwise_append.mp (split ▸ swept.sorted)).2.1.of_cons, ?_⟩
      intro other member
      exact swept.proper other (by simp [split, member])
    exact ⟨(first interval inside).trans (swept.proper interval inside).1, rest.gapEnd_le⟩

/-- The gaps are exactly what lies in no interval. -/
def Uncovered (size last : α) (intervals found : List (α × α)) : Prop :=
  ∀ x, (∃ gap ∈ found, Inside x gap) ↔ last ≤ x ∧ x < size ∧ ∀ interval ∈ intervals, ¬Inside x interval

theorem Swept.uncovered_iff (swept : Swept size intervals) (first : ∀ interval ∈ intervals, last ≤ interval.1) :
    Uncovered size last intervals (gaps size last intervals) ↔ Outlasting size intervals := by
  rw [← swept.gaps_free_iff last]
  constructor
  · intro exact gap member x inside
    exact ((exact x).mp ⟨gap, member, inside⟩).2.2
  · intro free x
    constructor
    · intro holds
      obtain ⟨gap, member, inside⟩ := holds
      have bounds := swept.gap_bounds first member
      exact ⟨bounds.1.trans inside.1, inside.2.trans_le bounds.2, free gap member x inside⟩
    · intro holds
      obtain ⟨low, high, outside⟩ := holds
      exact exists_gap low high outside

end

end Panopticon.Library
