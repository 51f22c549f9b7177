import Panopticon.Proofs.Progress

/-! The two drivers of the analysis against each other. -/

namespace Panopticon.Proofs.Drivers
open Library AdjacencyList Proofs.Discovery Proofs.Pipeline Proofs.Waves Proofs.Progress
open Proofs.Worklist (mem_insert listing instruction listing_single)

variable {Region : Type} {setup : Setup Region} {program : Program}

open Classical in
/-- How many addresses have no entry in the set of finished functions. -/
noncomputable def unfinished (pipe : Pipeline) : Nat := (Finset.univ.filter (· ∉ pipe.finishedFunctions)).card

section
variable {draws : Nat → Draw}

private theorem unfinished_insert {pipe pipe' : Pipeline} {a : UInt64} (new : a ∉ pipe.finishedFunctions)
    (finished : pipe'.finishedFunctions = pipe.finishedFunctions.insert a) : unfinished pipe' < unfinished pipe := by
  classical
  unfold unfinished
  apply Finset.card_lt_card
  rw [Finset.ssubset_iff_of_subset]
  · exact ⟨a, by simpa using new, by simp [finished]⟩
  · intro b
    simp only [Finset.mem_filter, Finset.mem_univ, true_and, finished, mem_insert, not_or]
    exact And.right

private theorem follow_progress (setup : Setup Region) (draws : Nat → Draw) (addresses : List UInt64) (pipe : Pipeline) :
    addresses.foldl (Pipeline.follow setup draws) pipe = pipe ∨
      unfinished (addresses.foldl (Pipeline.follow setup draws) pipe) < unfinished pipe := by
  induction addresses generalizing pipe with
  | nil => exact .inl rfl
  | cons address addresses ih =>
    rw [List.foldl_cons]
    have step : pipe.follow setup draws address = pipe ∨
        unfinished (pipe.follow setup draws address) < unfinished pipe := by
      unfold Pipeline.follow
      split
      · next fresh =>
        have new : address ∉ pipe.finishedFunctions := by
          intro known
          simp [Std.ExtTreeSet.contains_iff_mem.mpr known] at fresh
        exact .inr (unfinished_insert new (handle_sent setup draws pipe (.call address)).1)
      · exact .inl rfl
    rcases step with same | less
    · rw [same]
      exact ih pipe
    · rcases ih (pipe.follow setup draws address) with same | further
      · rw [same]
        exact .inr less
      · exact .inr (further.trans less)

private theorem drain_ends (rounds : Nat) {pipe : Pipeline} (enough : unfinished pipe + 1 < rounds)
    (alive : (pipe.drain setup draws rounds).alive = true) : (pipe.drain setup draws rounds).targets = [] := by
  induction rounds generalizing pipe with
  | zero => omega
  | succ rounds ih =>
    unfold Pipeline.drain at alive ⊢
    split
    · next more =>
      rw [if_pos more] at alive
      rcases follow_progress setup draws pipe.targets { pipe with targets := [] } with same | less
      · rw [same]
        obtain ⟨rounds, rfl⟩ := Nat.exists_eq_succ_of_ne_zero (show rounds ≠ 0 by omega)
        simp [Pipeline.drain]
      · refine ih ?_ alive
        have same : unfinished { pipe with targets := [] } = unfinished pipe := rfl
        omega
    · next done =>
      rw [if_neg done] at alive
      simpa [alive] using done

end

/-- Unless a request panics or does not come back, the thread ends after at most one round for each address. -/
theorem pipeline_ends (draws : Nat → Draw) (vertices : Enumeration Nat) {rounds : Nat}
    (enough : Fintype.card UInt64 + 1 < rounds) (alive : (pipeline setup draws vertices rounds program).alive = true) :
    (pipeline setup draws vertices rounds program).Ended := by
  classical
  refine ⟨alive, drain_ends rounds ?_ alive⟩
  have bound : unfinished ((program.inits vertices).foldl (Pipeline.first setup draws) ⟨∅, [], [], 0, true⟩) ≤
      Fintype.card UInt64 := Finset.card_le_univ _
  omega

/-- No thread sends two functions for one address. Both drivers come to their ends when they have enough rounds, the jobs
take turns and no request panics or fails to come back, and then the thread has sent functions for the same addresses as
`analyze` has inserted. -/
structure SameFunctions (setup : Setup Region) (program : Program) : Prop where
  once : ∀ draws vertices rounds, (starts (pipeline setup draws vertices rounds program).sent).Nodup
  ends : ∀ draws vertices rounds, Fintype.card UInt64 + 1 < rounds →
    (pipeline setup draws vertices rounds program).alive = true → (pipeline setup draws vertices rounds program).Ended
  allEnd : ∀ vertices plan rounds, Fintype.card UInt64 < rounds →
    (∀ n, Fair setup (waveStart setup vertices plan program n) (plan n).schedule) →
      ¬Lost (analyze setup vertices plan rounds program) → (analyze setup vertices plan rounds program).Ended
  same : ∀ draws vertices rounds vertices' plan rounds', (pipeline setup draws vertices rounds program).Ended →
    (analyze setup vertices' plan rounds' program).Ended →
    ∀ a, a ∈ starts (pipeline setup draws vertices rounds program).sent ↔
      a ∈ starts (analyze setup vertices' plan rounds' program).shared.inserted

/-- Code with a single instruction at address 0. -/
def nop : Setup Unit := ⟨listing [instruction 0 1 []], (), (), "code"⟩

/-- A program that knows address 0 under two names. -/
def twoNames : Program where
  callGraph := ((AdjacencyList.new.addVertex (.todo (.newU64 0) (some "main") 1)).1.addVertex
    (.todo (.newU64 0) (some "start") 2)).1

end Panopticon.Proofs.Drivers
