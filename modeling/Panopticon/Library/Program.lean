import Mathlib

/-! Straight-line programs over any state: what their runs are, and what holds after all
of them. An instruction may have no step, one, or several. -/

namespace Panopticon.Library

variable {ι σ : Type} (step : ι → σ → σ → Prop)

/-- The instructions one after the other. -/
inductive Runs : List ι → σ → σ → Prop where
  | nil (state : σ) : Runs [] state state
  | cons {first : ι} {rest : List ι} {before middle after : σ} :
    step first before middle → Runs rest middle after → Runs (first :: rest) before after

/-- The program has a run, and `post` holds at the end of every run. -/
structure Leads (program : List ι) (before : σ) (post : σ → Prop) : Prop where
  ends : ∃ after, Runs step program before after
  holds : ∀ after, Runs step program before after → post after

variable {step}

theorem runs_append {first second : List ι} {before after : σ} :
    Runs step (first ++ second) before after ↔ ∃ middle, Runs step first before middle ∧ Runs step second middle after := by
  induction first generalizing before with
  | nil =>
    constructor
    · intro run
      exact ⟨before, .nil before, run⟩
    · intro split
      obtain ⟨middle, start, run⟩ := split
      cases start
      exact run
  | cons item first ih =>
    constructor
    · intro run
      cases run with | cons moved run =>
      obtain ⟨middle, start, rest⟩ := ih.mp run
      exact ⟨middle, .cons moved start, rest⟩
    · intro split
      obtain ⟨middle, start, rest⟩ := split
      cases start with | cons moved start => exact .cons moved (ih.mpr ⟨middle, start, rest⟩)

namespace Leads
variable {program : List ι} {before : σ} {post : σ → Prop}

theorem nil (holds : post before) : Leads step [] before post := by
  refine ⟨⟨before, .nil before⟩, fun after run => ?_⟩
  cases run
  exact holds

theorem branch {first : ι} (moves : ∃ middle, step first before middle)
    (rest : ∀ middle, step first before middle → Leads step program middle post) :
    Leads step (first :: program) before post := by
  constructor
  · obtain ⟨middle, moved⟩ := moves
    obtain ⟨after, run⟩ := (rest middle moved).ends
    exact ⟨after, .cons moved run⟩
  · intro after run
    cases run with | cons moved run => exact (rest _ moved).holds after run

theorem cons {first : ι} {middle : σ} (moves : ∀ after, step first before after ↔ after = middle)
    (rest : Leads step program middle post) : Leads step (first :: program) before post := by
  refine branch ⟨middle, (moves middle).mpr rfl⟩ fun after moved => ?_
  rw [(moves after).mp moved]
  exact rest

theorem imp {weaker : σ → Prop} (leads : Leads step program before post) (implies : ∀ after, post after → weaker after) :
    Leads step program before weaker :=
  ⟨leads.ends, fun after run => implies after (leads.holds after run)⟩

theorem iff_of {other : σ → Prop} {condition : Prop} (leads : Leads step program before post)
    (decides : ∀ after, post after → (other after ↔ condition)) : Leads step program before other ↔ condition := by
  constructor
  · intro holds
    obtain ⟨after, run⟩ := leads.ends
    exact (decides after (leads.holds after run)).mp (holds.holds after run)
  · intro met
    exact leads.imp fun after known => (decides after known).mpr met

theorem append {second : List ι} {final : σ → Prop} (leads : Leads step program before post)
    (rest : ∀ middle, post middle → Leads step second middle final) : Leads step (program ++ second) before final := by
  constructor
  · obtain ⟨middle, start⟩ := leads.ends
    obtain ⟨after, run⟩ := (rest middle (leads.holds middle start)).ends
    exact ⟨after, runs_append.mpr ⟨middle, start, run⟩⟩
  · intro after run
    obtain ⟨middle, start, run⟩ := runs_append.mp run
    exact (rest middle (leads.holds middle start)).holds after run

end Leads
end Panopticon.Library
