import Panopticon.Amd64.Semantic

/-! The semantic functions of amd64 answer: what they assert of their operands holds of a
variable of at least one byte and any operand that starts at bit 0. -/

namespace Panopticon.Proofs.Translation
open Panopticon.Library Panopticon.Amd64 Panopticon.Amd64.Semantic

/-- A variable taken from its first bit on. Constants and undefined operands have no bits to skip. -/
def Flat : Rvalue → Prop
  | .var _ _ offset _ => offset = 0
  | .constant .. | .undefined => True

def Wide : Rvalue → Prop
  | .var _ _ offset size => offset = 0 ∧ 8 ≤ size
  | .constant .. | .undefined => False

variable {a b : Rvalue} {sz count : Nat}

private theorem Wide.extract (wide : Wide a) (positive : 0 < count) (low : count ≤ 8) :
    (a.extract count 0).toOption.isSome = true := by
  cases a with
  | var name subscript offset size =>
    have fits : count ≤ size := Nat.le_trans low wide.2
    simp [Rvalue.extract, Nat.ne_of_gt positive, fits, Except.toOption]
  | constant => exact wide.elim
  | undefined => exact wide.elim

private theorem result_extract (large : 8 ≤ sz) (positive : 0 < count) (low : count ≤ 8) :
    ((Lvalue.var "res" none sz).extract count 0).toOption.isSome = true := by
  have fits : count ≤ sz := Nat.le_trans low large
  simp [Lvalue.extract, Nat.ne_of_gt positive, fits, Except.toOption]

private theorem setAdjFlag_settles (wide : Wide a) (large : 8 ≤ sz) : (setAdjFlag (.var "res" none sz) a).Settles := by
  apply Outcome.Settles.bind (Outcome.settles_unwrap (result_extract large (by decide) (by decide)))
  intro low _
  apply Outcome.Settles.bind (Outcome.settles_unwrap (wide.extract (by decide) (by decide)))
  exact fun _ _ => Outcome.settles_ofExcept _

private theorem setSubAdjFlag_settles (wide : Wide a) (large : 8 ≤ sz) :
    (setSubAdjFlag (.var "res" none sz) a).Settles := by
  apply Outcome.Settles.bind (Outcome.settles_unwrap (wide.extract (by decide) (by decide)))
  intro lowA _
  apply Outcome.Settles.bind (Outcome.settles_unwrap (result_extract large (by decide) (by decide)))
  exact fun _ _ => Outcome.settles_ofExcept _

private theorem setParityFlag_settles (large : 8 ≤ sz) : (setParityFlag (.var "res" none sz)).Settles := by
  apply Outcome.Settles.bind (Outcome.settles_unwrap (result_extract large (by decide) (by decide)))
  exact fun _ _ => Outcome.settles_ofExcept _

private theorem writeReg_settles (reg val : Rvalue) (sz : Nat) : (writeReg reg val sz).Settles := by
  unfold writeReg
  split
  · split
    · exact Outcome.settles_ofExcept _
    · exact Outcome.settles_ofExcept _
  · trivial

private theorem extended_size (flat : Flat b) (s : Nat) :
    (extended b s).size = none ∨ (extended b s).size = some s := by
  cases b with
  | undefined => exact .inl rfl
  | var name subscript offset size =>
    obtain rfl : offset = 0 := flat
    unfold extended
    dsimp only
    split
    · exact .inr (by simp [Rvalue.size])
    next same => exact .inr (by simpa [Rvalue.size] using same)
  | constant value size =>
    unfold extended
    dsimp only
    split
    · exact .inr rfl
    next same => exact .inr (by simpa [Rvalue.size] using same)

private theorem Wide.flat (wide : Wide a) : Flat a := by
  cases a with
  | var => exact wide.1
  | constant => trivial
  | undefined => trivial

private theorem Wide.extended (wide : Wide a) {s : Nat} (large : 8 ≤ s) : Wide (extended a s) := by
  cases a with
  | var name subscript offset size =>
    unfold Semantic.extended
    dsimp only
    split
    · exact ⟨wide.1, Nat.le_add_right_of_le large⟩
    · exact wide
  | constant => exact wide.elim
  | undefined => exact wide.elim

private theorem Wide.size (wide : Wide a) : 8 ≤ max (a.size.getD 0) (b.size.getD 0) := by
  cases a with
  | var name subscript offset size => exact Nat.le_trans wide.2 (Nat.le_max_left _ _)
  | constant => exact wide.elim
  | undefined => exact wide.elim

private theorem extend_settles (wide : Wide a) (flat : Flat b) (signExt : Bool) : (extend a b signExt).Settles := by
  have large := wide.size (b := b)
  unfold extend
  dsimp only
  rw [if_neg (by omega), if_neg]
  · apply Outcome.Settles.bind (Outcome.settles_ofExcept _)
    intro _ _
    apply Outcome.Settles.bind (Outcome.settles_ofExcept _)
    exact fun _ _ => trivial
  · rw [not_not]
    obtain first | first := extended_size wide.flat (max (a.size.getD 0) (b.size.getD 0))
    · exact .inl first
    · obtain second | second := extended_size flat (max (a.size.getD 0) (b.size.getD 0))
      · exact .inr (.inl second)
      · exact .inr (.inr (first.trans second.symm))

private theorem extend_wide (wide : Wide a) {signExt : Bool} {result : Rvalue × Rvalue × Nat × List Statement}
    (returned : extend a b signExt = .returns result) : Wide result.1 ∧ 8 ≤ result.2.2.1 := by
  have large := wide.size (b := b)
  unfold extend at returned
  dsimp only at returned
  split at returned
  · cases returned
  · split at returned
    · cases returned
    · simp only [Outcome.bind_eq_returns, Outcome.pure_eq, Outcome.returns.injEq] at returned
      obtain ⟨_, _, _, _, rfl⟩ := returned
      exact ⟨wide.extended large, large⟩

private theorem extend_bind_settles {β : Type} (wide : Wide a) (flat : Flat b) {signExt : Bool}
    {f : Rvalue × Rvalue × Nat × List Statement → Outcome String β}
    (after : ∀ result, Wide result.1 → 8 ≤ result.2.2.1 → (f result).Settles) : (extend a b signExt >>= f).Settles := by
  apply Outcome.Settles.bind (extend_settles wide flat signExt)
  intro result returned
  exact after result (extend_wide wide returned).1 (extend_wide wide returned).2

private theorem checked_bind_settles {β : Type} {x : Except String (List Statement)}
    {f : List Statement → Outcome String β} (after : ∀ stmts, (f stmts).Settles) : (Outcome.ofExcept x >>= f).Settles :=
  Outcome.Settles.bind (Outcome.settles_ofExcept x) fun stmts _ => after stmts

private theorem writeReg_bind_settles {reg val : Rvalue} {f : List Statement → Outcome String (List Statement × JumpSpec)}
    (after : ∀ stmts, (f stmts).Settles) : (writeReg reg val sz >>= f).Settles :=
  Outcome.Settles.bind (writeReg_settles reg val sz) fun stmts _ => after stmts

private theorem parity_bind_settles (large : 8 ≤ sz) {f : List Statement → Outcome String (List Statement × JumpSpec)}
    (after : ∀ stmts, (f stmts).Settles) : (setParityFlag (.var "res" none sz) >>= f).Settles :=
  Outcome.Settles.bind (setParityFlag_settles large) fun stmts _ => after stmts

private theorem adc_settles (wide : Wide a) (flat : Flat b) : (adc a b).Settles := by
  apply extend_bind_settles wide flat
  intro result wide large
  apply Outcome.Settles.bind (Outcome.settles_unwrap (result_extract large (by decide) (by decide)))
  intro low _
  apply Outcome.Settles.bind (Outcome.settles_unwrap (wide.extract (by decide) (by decide)))
  intro lowA _
  apply checked_bind_settles fun sum => ?_
  apply checked_bind_settles fun carry => ?_
  apply checked_bind_settles fun overflow => ?_
  apply parity_bind_settles large fun parity => ?_
  exact writeReg_bind_settles fun _ => trivial

private theorem sbb_settles (wide : Wide a) (flat : Flat b) : (sbb a b).Settles := by
  apply extend_bind_settles wide flat
  intro result wide large
  apply Outcome.Settles.bind (Outcome.settles_unwrap (result_extract large (by decide) (by decide)))
  intro low _
  apply Outcome.Settles.bind (Outcome.settles_unwrap (wide.extract (by decide) (by decide)))
  intro lowA _
  apply checked_bind_settles fun difference => ?_
  apply checked_bind_settles fun carry => ?_
  apply checked_bind_settles fun overflow => ?_
  apply parity_bind_settles large fun parity => ?_
  exact writeReg_bind_settles fun _ => trivial

private theorem add_settles (wide : Wide a) (flat : Flat b) : (Semantic.add a b).Settles := by
  apply extend_bind_settles wide flat
  intro result wide large
  apply checked_bind_settles fun sum => ?_
  apply Outcome.Settles.bind (setAdjFlag_settles wide large)
  intro adjust _
  apply checked_bind_settles fun overflow => ?_
  apply parity_bind_settles large fun parity => ?_
  exact writeReg_bind_settles fun _ => trivial

private theorem cmp_settles (wide : Wide a) (flat : Flat b) : (cmp a b).Settles := by
  apply extend_bind_settles wide flat
  intro result wide large
  apply checked_bind_settles fun difference => ?_
  apply checked_bind_settles fun carry => ?_
  apply Outcome.Settles.bind (setSubAdjFlag_settles wide large)
  intro adjust _
  apply checked_bind_settles fun overflow => ?_
  exact parity_bind_settles large fun parity => trivial

private theorem sub_settles (wide : Wide a) (flat : Flat b) : (Semantic.sub a b).Settles := by
  apply extend_bind_settles wide flat
  intro result wide large
  apply checked_bind_settles fun difference => ?_
  apply checked_bind_settles fun carry => ?_
  apply Outcome.Settles.bind (setSubAdjFlag_settles wide large)
  intro adjust _
  apply checked_bind_settles fun overflow => ?_
  apply parity_bind_settles large fun parity => ?_
  exact writeReg_bind_settles fun _ => trivial

private theorem bitwise_settles (combine : Rvalue → Rvalue → Nat → List Statement) (wide : Wide a) (flat : Flat b) :
    (bitwise combine a b).Settles := by
  apply extend_bind_settles wide flat
  intro result wide large
  apply checked_bind_settles fun combined => ?_
  apply parity_bind_settles large fun parity => ?_
  exact writeReg_bind_settles fun _ => trivial

private theorem adcx_settles (wide : Wide a) (flat : Flat b) : (adcx a b).Settles := by
  apply extend_bind_settles wide flat
  intro result wide large
  apply checked_bind_settles fun sum => ?_
  apply checked_bind_settles fun carry => ?_
  exact writeReg_bind_settles fun _ => trivial

private theorem imul2_settles (wide : Wide a) (flat : Flat b) : (imul2 a b).Settles := by
  apply extend_bind_settles wide flat
  intro result wide large
  apply checked_bind_settles fun product => ?_
  exact writeReg_bind_settles fun _ => trivial

private theorem assign_settles (signExt : Bool) (wide : Wide a) (flat : Flat b) : (assign signExt a b).Settles := by
  apply extend_bind_settles wide flat
  intro result _ _
  exact writeReg_bind_settles fun _ => trivial

private theorem binary_settles {name : String} {f : Rvalue → Rvalue → Outcome String (List Statement × JumpSpec)}
    (listed : (name, f) ∈ binaries) (wide : Wide a) (flat : Flat b) : (f a b).Settles := by
  simp only [binaries, List.mem_cons, Prod.mk.injEq, List.not_mem_nil, or_false] at listed
  obtain ⟨-, rfl⟩ | ⟨-, rfl⟩ | ⟨-, rfl⟩ | ⟨-, rfl⟩ | ⟨-, rfl⟩ | ⟨-, rfl⟩ | ⟨-, rfl⟩ | ⟨-, rfl⟩ | ⟨-, rfl⟩ | ⟨-, rfl⟩ |
    ⟨-, rfl⟩ | ⟨-, rfl⟩ | ⟨-, rfl⟩ | ⟨-, rfl⟩ | ⟨-, rfl⟩ := listed
  · exact adc_settles wide flat
  · exact adcx_settles wide flat
  · exact add_settles wide flat
  · exact bitwise_settles _ wide flat
  · exact cmp_settles wide flat
  · exact imul2_settles wide flat
  · exact assign_settles _ wide flat
  · exact assign_settles _ wide flat
  · exact assign_settles _ wide flat
  · exact assign_settles _ wide flat
  · exact assign_settles _ wide flat
  · exact bitwise_settles _ wide flat
  · exact sbb_settles wide flat
  · exact sub_settles wide flat
  · exact bitwise_settles _ wide flat

private theorem stackOperand_settles (a : Rvalue) {low : Except String Rvalue}
    (known : ∀ size, a.size = some size → 64 < size → low.toOption.isSome = true) : (stackOperand a low).Settles := by
  unfold stackOperand
  split
  · trivial
  next size sized =>
    split
    · exact checked_bind_settles fun _ => trivial
    · split
      next large =>
        apply Outcome.Settles.bind (Outcome.settles_unwrap (known size sized large))
        intro low _
        exact checked_bind_settles fun _ => trivial
      · trivial

private theorem push_settles (a : Rvalue) : (push a).Settles := by
  have resized : (stackOperand a (a.extract 64 0)).Settles := by
    apply stackOperand_settles
    intro size sized large
    cases a with
    | undefined => cases sized
    | var name subscript offset width =>
      cases sized
      simp [Rvalue.extract, Nat.le_of_lt large, Except.toOption]
    | constant value width =>
      cases sized
      simp [Rvalue.extract, Nat.le_of_lt large, Except.toOption]
  apply Outcome.Settles.bind resized
  intro resized _
  apply checked_bind_settles fun store => ?_
  exact writeReg_bind_settles fun _ => trivial

private theorem pop_settles (a : Rvalue) : (pop a).Settles := by
  unfold pop
  split
  next a _ =>
    have resized : (stackOperand a.toRvalue (a.extract 64 0)).Settles := by
      apply stackOperand_settles
      intro size sized large
      cases a with
      | undefined => cases sized
      | var name subscript width =>
        cases sized
        simp [Lvalue.extract, Nat.le_of_lt large, Except.toOption]
    rw [Outcome.returns_bind]
    apply Outcome.Settles.bind resized
    intro resized _
    apply checked_bind_settles fun load => ?_
    apply writeReg_bind_settles fun write => ?_
    exact writeReg_bind_settles fun _ => trivial
  · trivial

private theorem unary_settles {name : String} {f : Rvalue → Outcome String (List Statement × JumpSpec)}
    (listed : (name, f) ∈ unaries) (a : Rvalue) : (f a).Settles := by
  simp only [unaries, List.mem_cons, Prod.mk.injEq, List.not_mem_nil, or_false] at listed
  obtain ⟨-, rfl⟩ | ⟨-, rfl⟩ | ⟨-, rfl⟩ | ⟨-, rfl⟩ | ⟨-, rfl⟩ | ⟨-, rfl⟩ | ⟨-, rfl⟩ | ⟨-, rfl⟩ | ⟨-, rfl⟩ | ⟨-, rfl⟩ |
    ⟨-, rfl⟩ | ⟨-, rfl⟩ | ⟨-, rfl⟩ | ⟨-, rfl⟩ | ⟨-, rfl⟩ | ⟨-, rfl⟩ | ⟨-, rfl⟩ | ⟨-, rfl⟩ | ⟨-, rfl⟩ | ⟨-, rfl⟩ |
    ⟨-, rfl⟩ | ⟨-, rfl⟩ := listed
  · exact checked_bind_settles fun _ => trivial
  on_goal 18 => exact pop_settles a
  on_goal 18 => exact push_settles a
  all_goals trivial

private theorem nonary_settles {name : String} {x : Outcome String (List Statement × JumpSpec)}
    (listed : (name, x) ∈ nonaries) : x.Settles := by
  simp only [nonaries, List.mem_cons, Prod.mk.injEq, List.not_mem_nil, or_false] at listed
  obtain ⟨-, rfl⟩ | ⟨-, rfl⟩ | ⟨-, rfl⟩ | ⟨-, rfl⟩ | ⟨-, rfl⟩ | ⟨-, rfl⟩ := listed
  on_goal 6 => exact checked_bind_settles fun _ => trivial
  all_goals trivial

private theorem lookup_mem {α : Type} {name : String} {entries : List (String × α)} {found : α}
    (known : entries.lookup name = some found) : (name, found) ∈ entries := by
  obtain ⟨before, after, split, _⟩ := List.lookup_eq_some_iff.mp known
  rw [split]
  exact List.mem_append_cons_self

theorem semantics_nonary (name : String) : (semantics name []).Settles := by
  dsimp only [semantics]
  cases known : nonaries.lookup name with
  | none => trivial
  | some x => exact nonary_settles (lookup_mem known)

theorem semantics_unary (name : String) (a : Rvalue) : (semantics name [a]).Settles := by
  dsimp only [semantics]
  cases known : unaries.lookup name with
  | none => trivial
  | some f => exact unary_settles (lookup_mem known) a

/-- A function of two operands that computes or moves something needs a variable to start from. -/
theorem semantics_binary {name : String} (wide : binaries.lookup name ≠ none → Wide a) (flat : Flat b) :
    (semantics name [a, b]).Settles := by
  dsimp only [semantics]
  cases known : binaries.lookup name with
  | none => trivial
  | some f => exact binary_settles (lookup_mem known) (wide (by simp [known])) flat

end Panopticon.Proofs.Translation
