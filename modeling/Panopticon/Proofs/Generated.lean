import Panopticon.Proofs.WriteRegister

/-! Code that is generated once and run from any state: what all its runs have in common. -/

namespace Panopticon.Proofs.Generated
open Panopticon.Library WriteRegister

/-- The code is generated, and from every state all its runs end as they should. -/
def Gives (code : Outcome String (List Statement)) (post : Valuation → Valuation → Prop) : Prop :=
  ∃ stmts, code = .returns stmts ∧ ∀ ρ, Leads Statement.Steps stmts ρ (post ρ)

/-- The code is generated, and this holds after all its runs from one state. -/
def Yields (code : Outcome String (List Statement)) (ρ : Valuation) (post : Valuation → Prop) : Prop :=
  ∃ stmts, code = .returns stmts ∧ Leads Statement.Steps stmts ρ post

/-- The statement computes something for one of these variables. -/
def sets (names : List String) (stmt : Statement) : Bool :=
  stmt.total && match stmt.assignee with
    | .var name none _ => name ∈ names
    | _ => false

section Gives

variable {names : List String} {stmts : List Statement} {code : Outcome String (List Statement)} {ρ : Valuation}

theorem Keeps.refl (names : List String) (ρ : Valuation) : Keeps names ρ ρ := fun _ _ => rfl

private theorem typecheck_of_sanityCheck {stmt : Statement} (checked : stmt.sanityCheck = .ok ()) : stmt.typecheck = .ok () := by
  rw [Statement.sanityCheck] at checked
  cases typed : stmt.typecheck with
  | ok u => rfl
  | error e =>
    rw [typed] at checked
    cases checked

theorem leads_keeps (checked : ∀ stmt ∈ stmts, stmt.sanityCheck = .ok ()) (known : ∀ stmt ∈ stmts, sets names stmt = true) :
    Leads Statement.Steps stmts ρ (Keeps names ρ) := by
  induction stmts generalizing ρ with
  | nil => exact Leads.nil (Keeps.refl names ρ)
  | cons stmt rest ih =>
    rw [List.forall_mem_cons] at checked known
    obtain ⟨total, assigned⟩ := Bool.and_eq_true_iff.mp known.1
    refine Leads.branch (Statement.progress total (typecheck_of_sanityCheck checked.1) ρ) fun middle moved => ?_
    refine (ih checked.2 known.2).imp fun after kept => ?_
    obtain ⟨r, rfl⟩ := moved.assigns
    intro name other
    rw [kept name other]
    split at assigned
    next own size assignee =>
      have apart : name ≠ own := by
        rintro rfl
        exact other (by simpa using assigned)
      simp [assignee, Valuation.assign, apart]
    next => cases assigned

theorem gives_keeps (checked : ∀ stmt ∈ stmts, stmt.sanityCheck = .ok ()) (known : ∀ stmt ∈ stmts, sets names stmt = true) :
    Gives (.ofExcept (rreil stmts)) (Keeps names) :=
  ⟨stmts, by rw [rreil_ok checked]; rfl, fun _ => leads_keeps checked known⟩

theorem gives_of_emits {post : Valuation → Valuation → Prop} (emits : ∀ ρ, Emits code ρ (post ρ)) : Gives code post := by
  obtain ⟨stmts, _, generated, _, _⟩ := emits fun _ _ => 0
  refine ⟨stmts, generated, fun ρ => ?_⟩
  obtain ⟨stmts', after, generated', final, holds⟩ := emits ρ
  obtain rfl : stmts' = stmts := Outcome.returns.inj (generated'.symm.trans generated)
  exact (leads_iff final).mpr holds

theorem Gives.yields_iff {known : Valuation → Valuation → Prop} {post : Valuation → Prop} {condition : Prop}
    (gives : Gives code known) (decides : ∀ after, known ρ after → (post after ↔ condition)) :
    Yields code ρ post ↔ condition := by
  obtain ⟨stmts, generated, leads⟩ := gives
  rw [← (leads ρ).iff_of decides]
  constructor
  · intro yields
    obtain ⟨stmts', generated', leads'⟩ := yields
    obtain rfl := Outcome.returns.inj (generated'.symm.trans generated)
    exact leads'
  · intro holds
    exact ⟨stmts, generated, holds⟩

theorem Gives.keeps {code : Outcome String (List Statement)} {names : List String} {post : Valuation → Valuation → Prop}
    (gives : Gives code post) (kept : ∀ ρ after, post ρ after → Keeps names ρ after) {more : List String}
    (inside : names ⊆ more) : Gives code (Keeps more) := by
  obtain ⟨stmts, generated, leads⟩ := gives
  exact ⟨stmts, generated, fun ρ => (leads ρ).imp fun after holds => (kept ρ after holds).mono inside⟩

/-- Statements with one run, statements that change some variables in any way, and again statements with one run. -/
theorem gives_around {head rest last : List Statement} {post final : Valuation → Valuation → Prop}
    (checked : ∀ stmt ∈ head ++ rest ++ last, stmt.sanityCheck = .ok ()) (known : ∀ stmt ∈ rest, sets names stmt = true)
    (ran : ∀ ρ, ∃ middle, run head ρ = some middle ∧ post ρ middle)
    (stable : ∀ ρ middle after, post ρ middle → Keeps names middle after → post ρ after)
    (ends : ∀ ρ middle, post ρ middle → ∃ after, run last middle = some after ∧ final ρ after) :
    Gives (.ofExcept (rreil (head ++ rest ++ last))) final := by
  refine ⟨head ++ rest ++ last, by rw [rreil_ok checked]; rfl, fun ρ => ?_⟩
  obtain ⟨middle, start, computed⟩ := ran ρ
  have first : Leads Statement.Steps head ρ (post ρ) := (leads_iff start).mpr computed
  have second : Leads Statement.Steps (head ++ rest) ρ (post ρ) := first.append fun middle computed =>
    (leads_keeps (fun stmt member => checked stmt (by simp [member])) known).imp fun after => stable ρ middle after computed
  refine second.append fun middle computed => ?_
  obtain ⟨after, finish, done⟩ := ends ρ middle computed
  exact (leads_iff finish).mpr done

end Gives

theorem size_var (name : String) (subscript : Option Nat) (offset s : Nat) :
    (Rvalue.var name subscript offset s).size = some s := rfl

theorem size_constant (v : UInt64) (s : Nat) : (Rvalue.constant v s).size = some s := rfl

theorem size_undefined : Rvalue.undefined.size = none := rfl

theorem bits_var (ρ : Valuation) (name : String) (subscript : Option Nat) (offset s : Nat) :
    (Rvalue.var name subscript offset s).bits ρ = .ofNat s (ρ name subscript / 2 ^ offset) := rfl

theorem bits_constant (ρ : Valuation) (v : UInt64) (s : Nat) : (Rvalue.constant v s).bits ρ = .ofNat s v.toNat := rfl

theorem bits_size {y : Rvalue} {n : Nat} (sized : y.size = some n) (ρ : Valuation) : (y.bits ρ).size = n := by
  cases y <;> simp_all [Rvalue.size, Rvalue.bits, Rvalue.denote]

theorem undefined_ne {y : Rvalue} {n : Nat} (sized : y.size = some n) : Rvalue.undefined ≠ y := by
  rintro rfl
  cases sized

end Panopticon.Proofs.Generated
