import Panopticon.Meaning
import Panopticon.Library.Program

/-! Running RREIL statements: each assigns bits that its operation computes from bits its
operands stand for. Statements without undefined operands and without access to memory
have exactly one step, which `Statement.next` evaluates. -/

namespace Panopticon
open Panopticon.Library

namespace Valuation

def assign (ρ : Valuation) : Lvalue → Bits → Valuation
  | .undefined, _ => ρ
  | .var name subscript size, r => fun n s => if n = name ∧ s = subscript then r.value % 2 ^ size else ρ n s

end Valuation

def Statement.Steps (stmt : Statement) (before after : Valuation) : Prop :=
  ∃ (args : Operation (Rvalue × Bits)) (r : Bits), args.lift Prod.fst = stmt.op ∧
    (∀ arg ∈ args.operands, arg.1.Denotes before arg.2) ∧ (args.lift Prod.snd).Computes r ∧
    after = before.assign stmt.assignee r

def Rvalue.bits (ρ : Valuation) (rv : Rvalue) : Bits := (rv.denote ρ).getD (.ofNat 0 0)

/-- The only bit-vector an operation computes, if there is one. -/
def Operation.result : Operation Bits → Option Bits
  | .add x y => if x.size = y.size then some (.ofNat x.size (x.value + y.value)) else none
  | .subtract x y => if x.size = y.size then some (.ofInt x.size (x.value - y.value)) else none
  | .multiply x y => if x.size = y.size then some (.ofNat x.size (x.value * y.value)) else none
  | .and x y => if x.size = y.size then some (.ofNat x.size (x.value &&& y.value)) else none
  | .inclusiveOr x y => if x.size = y.size then some (.ofNat x.size (x.value ||| y.value)) else none
  | .exclusiveOr x y => if x.size = y.size then some (.ofNat x.size (x.value ^^^ y.value)) else none
  | .equal x y => if x.size = y.size then some (.flag (x.value = y.value)) else none
  | .lessOrEqualUnsigned x y => if x.size = y.size then some (.flag (x.value ≤ y.value)) else none
  | .lessOrEqualSigned x y => if x.size = y.size then some (.flag (x.signed ≤ y.signed)) else none
  | .lessUnsigned x y => if x.size = y.size then some (.flag (x.value < y.value)) else none
  | .lessSigned x y => if x.size = y.size then some (.flag (x.signed < y.signed)) else none
  | .zeroExtend size x => some (.ofNat size x.value)
  | .signExtend size x => some (.ofInt size x.signed)
  | .move x => some x
  | _ => none

theorem Operation.computes_iff {op : Operation Bits} {v : Bits} (result : op.result = some v) (r : Bits) :
    op.Computes r ↔ r = v := by
  cases op <;> simp only [Operation.result, Option.ite_none_right_eq_some, Option.some.injEq, reduceCtorEq] at result
  case zeroExtend | signExtend | move => rw [← result, Operation.Computes]
  all_goals
    obtain ⟨sizes, rfl⟩ := result
    simp only [Operation.Computes, sizes, true_and]

theorem Operation.lift_id (op : Operation V) : op.lift id = op := by
  cases op <;> simp [Operation.lift]

namespace Statement

def next (stmt : Statement) (ρ : Valuation) : Option Valuation :=
  if .undefined ∈ stmt.op.operands then none
  else (stmt.op.lift (Rvalue.bits ρ)).result.map (ρ.assign stmt.assignee)

theorem steps_iff {stmt : Statement} {before middle : Valuation} (determined : stmt.next before = some middle)
    (after : Valuation) : stmt.Steps before after ↔ after = middle := by
  unfold next at determined
  split at determined
  · cases determined
  next defined =>
    obtain ⟨v, result, rfl⟩ := Option.map_eq_some_iff.mp determined
    have stands : ∀ rv ∈ stmt.op.operands, ∀ x : Bits, rv.Denotes before x ↔ x = rv.bits before := by
      intro rv member x
      cases rv with
      | undefined => exact absurd member defined
      | var name subscript offset size => simp [Rvalue.Denotes, Rvalue.bits, Rvalue.denote]
      | constant value size => simp [Rvalue.Denotes, Rvalue.bits, Rvalue.denote]
    constructor
    · intro holds
      obtain ⟨args, r, form, denoted, computes, final⟩ := holds
      rw [← form, Operation.operands_lift, List.forall_mem_map] at stands
      have bits : args.lift Prod.snd = stmt.op.lift (Rvalue.bits before) := by
        rw [← form, Operation.lift_lift]
        exact args.lift_congr fun arg member => (stands arg member arg.2).mp (denoted arg member)
      rw [bits, Operation.computes_iff result] at computes
      rw [final, computes]
    · intro final
      refine ⟨stmt.op.lift fun rv => (rv, rv.bits before), v, ?_, ?_, ?_, final⟩
      · rw [Operation.lift_lift]
        exact Operation.lift_id _
      · rw [Operation.operands_lift, List.forall_mem_map]
        intro rv member
        exact (stands rv member _).mpr rfl
      · rw [Operation.lift_lift]
        exact (Operation.computes_iff result v).mpr rfl

theorem Steps.assigns {stmt : Statement} {before after : Valuation} (steps : stmt.Steps before after) :
    ∃ r, after = before.assign stmt.assignee r := by
  obtain ⟨_, r, _, _, _, final⟩ := steps
  exact ⟨r, final⟩

/-- Arithmetic that has a result for any operands of one size. -/
def total (stmt : Statement) : Bool :=
  match stmt.op with
  | .add _ _ | .subtract _ _ | .multiply _ _ | .and _ _ | .inclusiveOr _ _ | .exclusiveOr _ _ | .equal _ _
  | .lessOrEqualUnsigned _ _ | .lessOrEqualSigned _ _ | .lessUnsigned _ _ | .lessSigned _ _ | .zeroExtend _ _
  | .signExtend _ _ | .move _ => true
  | _ => false

theorem progress {stmt : Statement} (total : stmt.total = true) (checked : stmt.typecheck = .ok ()) (ρ : Valuation) :
    ∃ after, stmt.Steps ρ after := by
  obtain ⟨assignee, op⟩ := stmt
  have size : ∀ (s : Nat) (rv : Rvalue), ((rv.denote ρ).getD (.ofNat s 0)).size = rv.size.getD s := by
    intro s rv
    cases rv <;> rfl
  -- with the size of the operand that has one, both have the same
  have common : ∀ a b : Rvalue, a.size = none ∨ b.size = none ∨ a.size = b.size →
      ∃ s : Nat, ((a.denote ρ).getD (.ofNat s 0)).size = ((b.denote ρ).getD (.ofNat s 0)).size := by
    intro a b agree
    refine ⟨(a.size <|> b.size).getD 0, ?_⟩
    rw [size, size]
    cases sizeA : a.size <;> cases sizeB : b.size <;> simp_all
  have computes : ∃ s : Nat, ∃ v, (op.lift fun rv => (rv.denote ρ).getD (.ofNat s 0)).result = some v := by
    cases op with
    | zeroExtend | signExtend | move => exact ⟨0, _, rfl⟩
    | add a b | subtract a b | multiply a b | and a b | inclusiveOr a b | exclusiveOr a b =>
      obtain ⟨s, same⟩ := common a b (by
        by_contra apart
        simp [typecheck, typecheckBinop, apart] at checked)
      exact ⟨s, _, if_pos same⟩
    | equal a b | lessOrEqualUnsigned a b | lessOrEqualSigned a b | lessUnsigned a b | lessSigned a b =>
      obtain ⟨s, same⟩ := common a b (by
        by_contra apart
        simp [typecheck, typecheckCmpop, apart] at checked)
      exact ⟨s, _, if_pos same⟩
    | _ => cases total
  obtain ⟨s, v, result⟩ := computes
  refine ⟨_, op.lift fun rv => (rv, (rv.denote ρ).getD (.ofNat s 0)), v, ?_, ?_, ?_, rfl⟩
  · rw [Operation.lift_lift]
    exact Operation.lift_id _
  · rw [Operation.operands_lift, List.forall_mem_map]
    intro rv _ y denoted
    rw [Option.mem_def] at denoted
    simp [denoted]
  · rw [Operation.lift_lift]
    exact (Operation.computes_iff result v).mpr rfl

end Statement

def run : List Statement → Valuation → Option Valuation
  | [], ρ => some ρ
  | stmt :: rest, ρ => stmt.next ρ >>= run rest

theorem run_append (first second : List Statement) (ρ : Valuation) :
    run (first ++ second) ρ = run first ρ >>= run second := by
  induction first generalizing ρ with
  | nil => rfl
  | cons stmt first ih =>
    simp only [List.cons_append, run, Option.bind_eq_bind, Option.bind_assoc]
    congr 1
    funext middle
    exact ih middle

theorem leads_of_run {stmts : List Statement} {before after : Valuation} (determined : run stmts before = some after) :
    Leads Statement.Steps stmts before (· = after) := by
  induction stmts generalizing before with
  | nil =>
    cases determined
    exact Leads.nil rfl
  | cons stmt rest ih =>
    obtain ⟨middle, first, last⟩ := Option.bind_eq_some_iff.mp determined
    exact Leads.cons (Statement.steps_iff first) (ih last)

theorem leads_iff {stmts : List Statement} {before after : Valuation} {post : Valuation → Prop}
    (determined : run stmts before = some after) : Leads Statement.Steps stmts before post ↔ post after := by
  have ended := leads_of_run determined
  constructor
  · intro leads
    obtain ⟨last, ran⟩ := leads.ends
    exact ended.holds last ran ▸ leads.holds last ran
  · intro holds
    exact ended.imp fun last same => same ▸ holds

end Panopticon
