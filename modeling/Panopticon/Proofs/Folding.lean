import Panopticon.Meaning
import Panopticon.Proofs.Evaluate

/-! The evaluator on operands that are not constants: the sizes of what it returns, and whether that stands
for what the operation computes under every assignment to the variables. -/

namespace Panopticon
open Panopticon.Library.Word

namespace Proofs.Folding

/-- What a constant operand makes of an operation whose other operand is not a constant. -/
inductive Rule where
  | unknown
  | operand
  | zero
  | one

namespace Rule

def apply (size : Nat) (other : Rvalue) : Rule → Rvalue
  | .unknown => .undefined
  | .operand => other
  | .zero => .constant 0 size
  | .one => .constant 1 1

/-- Comparisons give flags, all other operations values of their operands' size. -/
def Suits (comparison : Bool) : Rule → Prop
  | .unknown => True
  | .operand | .zero => comparison = false
  | .one => comparison = true

def never (_ : UInt64) : Rule := .unknown

def neutral (n v : UInt64) : Rule := if v = n then .operand else .unknown

def absorbing (n v : UInt64) : Rule := if v = n then .zero else .unknown

def factor (v : UInt64) : Rule := if v = 0 then .zero else if v = 1 then .operand else .unknown

def least (v : UInt64) : Rule := if v = 0 then .one else .unknown

end Rule

/-- The operations of two operands of one size. -/
inductive Binary where
  | add | subtract | multiply | divideUnsigned | divideSigned | modulo | shiftLeft | shiftRightUnsigned
  | shiftRightSigned | and | inclusiveOr | exclusiveOr | equal | lessOrEqualUnsigned | lessOrEqualSigned
  | lessUnsigned | lessSigned

namespace Binary

def op : Binary → V → V → Operation V
  | .add => .add
  | .subtract => .subtract
  | .multiply => .multiply
  | .divideUnsigned => .divideUnsigned
  | .divideSigned => .divideSigned
  | .modulo => .modulo
  | .shiftLeft => .shiftLeft
  | .shiftRightUnsigned => .shiftRightUnsigned
  | .shiftRightSigned => .shiftRightSigned
  | .and => .and
  | .inclusiveOr => .inclusiveOr
  | .exclusiveOr => .exclusiveOr
  | .equal => .equal
  | .lessOrEqualUnsigned => .lessOrEqualUnsigned
  | .lessOrEqualSigned => .lessOrEqualSigned
  | .lessUnsigned => .lessUnsigned
  | .lessSigned => .lessSigned

def comparison : Binary → Bool
  | .equal | .lessOrEqualUnsigned | .lessOrEqualSigned | .lessUnsigned | .lessSigned => true
  | _ => false

def left : Binary → UInt64 → Rule
  | .add | .inclusiveOr => .neutral 0
  | .multiply => .factor
  | .divideUnsigned | .divideSigned | .modulo | .shiftLeft | .shiftRightUnsigned | .shiftRightSigned | .and =>
    .absorbing 0
  | .lessOrEqualUnsigned => .least
  | .subtract | .exclusiveOr | .equal | .lessOrEqualSigned | .lessUnsigned | .lessSigned => .never

def right : Binary → UInt64 → Rule
  | .add | .subtract | .inclusiveOr | .shiftLeft | .shiftRightUnsigned | .shiftRightSigned => .neutral 0
  | .multiply => .factor
  | .divideUnsigned | .divideSigned => .neutral 1
  | .modulo => .absorbing 1
  | .and => .absorbing 0
  | .exclusiveOr | .equal | .lessOrEqualUnsigned | .lessOrEqualSigned | .lessUnsigned | .lessSigned => .never

private theorem left_suits (f : Binary) (v : UInt64) : (f.left v).Suits f.comparison := by
  cases f <;> simp only [left, comparison, Rule.neutral, Rule.absorbing, Rule.factor, Rule.least, Rule.never] <;>
    (repeat' split) <;> trivial

private theorem right_suits (f : Binary) (w : UInt64) : (f.right w).Suits f.comparison := by
  cases f <;> simp only [right, comparison, Rule.neutral, Rule.absorbing, Rule.factor, Rule.never] <;>
    (repeat' split) <;> trivial

theorem execute_left (f : Binary) (v : UInt64) (s : Nat) {b : Rvalue} (symbolic : b.constant? = none) :
    execute (f.op (.constant v s) b) = (f.left v).apply s b := by
  obtain ⟨⟨⟨n, bound⟩⟩⟩ := v
  cases b with
  | constant => cases symbolic
  | undefined => rcases n with - | - | n <;> cases f <;> rfl
  | var => rcases n with - | - | n <;> cases f <;> rfl

theorem execute_right (f : Binary) {a : Rvalue} (w : UInt64) (t : Nat) (symbolic : a.constant? = none) :
    execute (f.op a (.constant w t)) = (f.right w).apply t a := by
  obtain ⟨⟨⟨n, bound⟩⟩⟩ := w
  cases a with
  | constant => cases symbolic
  | undefined => rcases n with - | - | n <;> cases f <;> rfl
  | var => rcases n with - | - | n <;> cases f <;> rfl

theorem execute_neither (f : Binary) {a b : Rvalue} (symbolicA : a.constant? = none) (symbolicB : b.constant? = none) :
    execute (f.op a b) = .undefined := by
  cases a with
  | constant => cases symbolicA
  | _ =>
    cases b with
    | constant => cases symbolicB
    | _ => cases f <;> rfl

end Binary

def Agree (a b : Rvalue) : Prop := a.size = none ∨ b.size = none ∨ a.size = b.size

theorem size_eq_none {a : Rvalue} : a.size = none ↔ a = .undefined := by
  cases a <;> simp [Rvalue.size]

/-- A result is undefined, or has the size it should have. -/
def Sized (op : Operation Rvalue) : Prop := execute op = .undefined ∨ (execute op).size = op.resultSize

namespace Binary

private theorem resultSize_op (f : Binary) (a b : Rvalue) :
    (f.op a b).resultSize = if f.comparison then some 1 else (a.size <|> b.size) := by
  cases f <;> rfl

private theorem sized_constants (f : Binary) (v w : UInt64) (s t : Nat) :
    execute (f.op (.constant v s) (.constant w t)) = .undefined ∨
      (execute (f.op (.constant v s) (.constant w t))).size = if f.comparison then some 1 else some s := by
  cases f with
  | add | subtract | multiply | shiftLeft | and | inclusiveOr | exclusiveOr | equal | lessOrEqualUnsigned
  | lessUnsigned | lessSigned => exact .inr rfl
  | divideUnsigned =>
    rcases eq_or_ne w 0 with rfl | nonzero
    · exact .inl rfl
    · rw [op, execute_divideUnsigned nonzero]
      apply (Evaluate.divideUnsigned_cases s v w).imp_right
      intro found
      obtain ⟨r, result⟩ := found
      rw [result]
      rfl
  | divideSigned =>
    rcases eq_or_ne w 0 with rfl | nonzero
    · exact .inl rfl
    · rw [op, execute_divideSigned nonzero]
      apply (Evaluate.divideSigned_cases s v w).imp_right
      intro found
      obtain ⟨r, result⟩ := found
      rw [result]
      rfl
  | modulo =>
    rcases eq_or_ne w 0 with rfl | nonzero
    · exact .inl rfl
    · rw [op, execute_modulo nonzero]
      exact .inr rfl
  | shiftRightUnsigned =>
    obtain ⟨r, result⟩ := Evaluate.shiftRightUnsigned_eq_constant s v w
    change Evaluate.shiftRightUnsigned s v w = _ ∨ (Evaluate.shiftRightUnsigned s v w).size = _
    rw [result]
    exact .inr rfl
  | shiftRightSigned =>
    obtain ⟨r, result⟩ := Evaluate.shiftRightSigned_eq_constant s v w
    change Evaluate.shiftRightSigned s v w = _ ∨ (Evaluate.shiftRightSigned s v w).size = _
    rw [result]
    exact .inr rfl
  | lessOrEqualSigned =>
    obtain ⟨holds, result⟩ := Evaluate.lessOrEqualSigned_flag s v w
    change Evaluate.lessOrEqualSigned s v w = _ ∨ (Evaluate.lessOrEqualSigned s v w).size = _
    rw [result]
    exact .inr rfl

theorem sized_apply {f : Binary} {rule : Rule} (suits : rule.Suits f.comparison) {v : UInt64} {s : Nat} {other : Rvalue}
    (agree : Agree (.constant v s) other) : rule.apply s other = .undefined ∨
      (rule.apply s other).size = if f.comparison then some 1 else some s := by
  cases rule with
  | unknown => exact .inl rfl
  | operand =>
    rw [show f.comparison = false from suits]
    rcases agree with none | none | same
    · cases none
    · exact .inl (size_eq_none.mp none)
    · exact .inr same.symm
  | zero =>
    rw [show f.comparison = false from suits]
    exact .inr rfl
  | one =>
    rw [show f.comparison = true from suits]
    exact .inr rfl

theorem sized (f : Binary) {a b : Rvalue} (agree : Agree a b) : Sized (f.op a b) := by
  unfold Sized
  rw [resultSize_op]
  cases constA : a.constant? with
  | some v =>
    obtain ⟨s, rfl⟩ := Rvalue.constant?_eq_some.mp constA
    cases constB : b.constant? with
    | some w =>
      obtain ⟨t, rfl⟩ := Rvalue.constant?_eq_some.mp constB
      exact f.sized_constants v w s t
    | none =>
      rw [f.execute_left v s constB]
      exact sized_apply (f.left_suits v) agree
  | none =>
    cases constB : b.constant? with
    | some w =>
      obtain ⟨t, rfl⟩ := Rvalue.constant?_eq_some.mp constB
      have swapped : Agree (.constant w t) a := by
        rcases agree with none | none | same
        · exact .inr (.inl none)
        · exact .inl none
        · exact .inr (.inr same.symm)
      have size : (a.size <|> (Rvalue.constant w t).size) = some t := by
        rcases agree with none | none | same
        · rw [none]
          rfl
        · cases none
        · rw [same]
          rfl
      rw [f.execute_right w t constA, size]
      exact sized_apply (f.right_suits w) swapped
    | none => exact .inl (f.execute_neither constA constB)

end Binary

theorem typecheckBinop_ok {stmt : Statement} {a b : Rvalue} : stmt.typecheckBinop a b = .ok () ↔
    Agree a b ∧ (stmt.assignee.size = none ∨ some (max (a.size.getD 0) (b.size.getD 0)) = stmt.assignee.size) := by
  unfold Statement.typecheckBinop Agree
  split_ifs <;> simp_all

theorem typecheckCmpop_ok {stmt : Statement} {a b : Rvalue} : stmt.typecheckCmpop a b = .ok () ↔
    Agree a b ∧ (stmt.assignee.size = none ∨ stmt.assignee.size = some 1) := by
  unfold Statement.typecheckCmpop Agree
  split_ifs <;> simp_all

theorem sanityCheck_ok {stmt : Statement} : stmt.sanityCheck = .ok () ↔ stmt.typecheck = .ok () ∧
    (∀ rv ∈ stmt.op.operands, rv.size ≠ some 0) ∧ stmt.assignee.size ≠ some 0 := by
  unfold Statement.sanityCheck
  cases stmt.typecheck with
  | error message => simp [bind, Except.bind]
  | ok _ =>
    simp only [bind, Except.bind, true_and]
    split
    next sized => exact ⟨fun _ => sized, fun _ => rfl⟩
    next unsized => simpa using unsized

theorem execute_sized {stmt : Statement} (checked : stmt.typecheck = .ok ()) : Sized stmt.op := by
  obtain ⟨assignee, op⟩ := stmt
  unfold Statement.typecheck at checked
  unfold Sized
  cases op with
  | add a b => exact Binary.add.sized (typecheckBinop_ok.mp checked).1
  | subtract a b => exact Binary.subtract.sized (typecheckBinop_ok.mp checked).1
  | multiply a b => exact Binary.multiply.sized (typecheckBinop_ok.mp checked).1
  | divideUnsigned a b => exact Binary.divideUnsigned.sized (typecheckBinop_ok.mp checked).1
  | divideSigned a b => exact Binary.divideSigned.sized (typecheckBinop_ok.mp checked).1
  | modulo a b => exact Binary.modulo.sized (typecheckBinop_ok.mp checked).1
  | shiftLeft a b => exact Binary.shiftLeft.sized (typecheckBinop_ok.mp checked).1
  | shiftRightUnsigned a b => exact Binary.shiftRightUnsigned.sized (typecheckBinop_ok.mp checked).1
  | shiftRightSigned a b => exact Binary.shiftRightSigned.sized (typecheckBinop_ok.mp checked).1
  | and a b => exact Binary.and.sized (typecheckBinop_ok.mp checked).1
  | inclusiveOr a b => exact Binary.inclusiveOr.sized (typecheckBinop_ok.mp checked).1
  | exclusiveOr a b => exact Binary.exclusiveOr.sized (typecheckBinop_ok.mp checked).1
  | equal a b => exact Binary.equal.sized (typecheckCmpop_ok.mp checked).1
  | lessOrEqualUnsigned a b => exact Binary.lessOrEqualUnsigned.sized (typecheckCmpop_ok.mp checked).1
  | lessOrEqualSigned a b => exact Binary.lessOrEqualSigned.sized (typecheckCmpop_ok.mp checked).1
  | lessUnsigned a b => exact Binary.lessUnsigned.sized (typecheckCmpop_ok.mp checked).1
  | lessSigned a b => exact Binary.lessSigned.sized (typecheckCmpop_ok.mp checked).1
  | zeroExtend width a =>
    cases a with
    | undefined => exact .inl rfl
    | var name subscript offset size => exact .inr rfl
    | constant value size => exact .inr rfl
  | signExtend width a =>
    cases a with
    | undefined => exact .inl rfl
    | var name subscript offset size => exact .inr rfl
    | constant value size =>
      obtain ⟨r, result⟩ := Evaluate.signExtend_eq_constant width value size
      change Evaluate.signExtend width value size = _ ∨ (Evaluate.signExtend width value size).size = _
      rw [result]
      exact .inr rfl
  | move a => cases a <;> exact .inr rfl
  | select offset a b =>
    cases a with
    | constant value size =>
      cases b with
      | constant value' size' =>
        change Evaluate.select offset value size value' size' = _ ∨ (Evaluate.select offset value size value' size').size = _
        apply (Evaluate.select_cases _ _ _ _ _).imp_right
        intro found
        obtain ⟨r, result⟩ := found
        rw [result]
        rfl
      | undefined => exact .inl rfl
      | var name subscript offset size => exact .inl rfl
    | undefined => exact .inl rfl
    | var name subscript offset size => exact .inl rfl
  | phi operands =>
    cases operands with
    | nil => exact .inl rfl
    | cons first rest =>
      rw [execute_phi_cons]
      split
      · exact .inr rfl
      · exact .inl rfl
  | call a => exact .inl rfl
  | initialized name size => exact .inl rfl
  | load region endianess size a => exact .inl rfl
  | store region endianess size a b => exact .inl rfl

private theorem binop_resultSize {stmt : Statement} {a b : Rvalue} {n : Nat} (checked : stmt.typecheckBinop a b = .ok ())
    (assigned : stmt.assignee.size = some n) : (a.size <|> b.size) = none ∨ (a.size <|> b.size) = some n := by
  obtain ⟨agree, size⟩ := typecheckBinop_ok.mp checked
  rw [assigned] at size
  unfold Agree at agree
  cases sizeA : a.size with
  | none =>
    cases sizeB : b.size with
    | none => exact .inl rfl
    | some t => simpa [sizeA, sizeB] using size
  | some s =>
    cases sizeB : b.size with
    | none => simpa [sizeA, sizeB] using size
    | some t =>
      obtain rfl : s = t := by simpa [sizeA, sizeB] using agree
      simpa [sizeA, sizeB] using size

/-- By its operands, the result of every checked operation but a move has the size of its assignee. -/
theorem typecheck_resultSize {stmt : Statement} {n : Nat} (checked : stmt.typecheck = .ok ())
    (assigned : stmt.assignee.size = some n) (other : ∀ a, stmt.op ≠ .move a) :
    execute stmt.op = .undefined ∨ stmt.op.resultSize = none ∨ stmt.op.resultSize = some n := by
  obtain ⟨assignee, op⟩ := stmt
  unfold Statement.typecheck at checked
  cases op with
  | add a b | subtract a b | multiply a b | divideUnsigned a b | divideSigned a b | shiftLeft a b
  | shiftRightUnsigned a b | shiftRightSigned a b | modulo a b | and a b | inclusiveOr a b | exclusiveOr a b =>
    exact .inr (binop_resultSize checked assigned)
  | equal a b | lessOrEqualUnsigned a b | lessOrEqualSigned a b | lessUnsigned a b | lessSigned a b =>
    obtain ⟨-, none | one⟩ := typecheckCmpop_ok.mp checked
    · rw [assigned] at none
      cases none
    · exact .inr (.inr (one.symm.trans assigned))
  | zeroExtend size a | signExtend size a =>
    cases a with
    | undefined => exact .inl rfl
    | var _ _ _ _ | constant _ _ =>
      have same : some n = some size := by
        rw [← assigned]
        simpa [Statement.typecheckUnop, Rvalue.size, show assignee.size ≠ none by simp_all] using checked
      exact .inr (.inr same.symm)
  | move a => exact absurd rfl (other a)
  | select offset a b =>
    simp only at checked
    split at checked
    next fits => exact .inr (.inr (fits.1.symm.trans assigned))
    next => cases checked
  | phi operands =>
    cases operands with
    | nil => exact .inl rfl
    | cons first rest =>
      simp only at checked
      split at checked
      next fits => exact .inr (.inr ((fits.1 first (by simp)).trans assigned))
      next => cases checked
  | call a => exact .inl rfl
  | initialized name size => exact .inl rfl
  | load region endianess size a => exact .inl rfl
  | store region endianess size a b => exact .inl rfl

/-- A check that passes lets a move into a narrower variable pass too, and the evaluator does not narrow. -/
theorem sanityCheck_size {stmt : Statement} {name : String} {subscript : Option Nat} {n : Nat}
    (checked : stmt.sanityCheck = .ok ()) (variable_ : stmt.assignee = .var name subscript n) :
    (execute stmt.op = .undefined ∨ (execute stmt.op).size = stmt.assignee.size) ↔
      ¬∃ a m, stmt.op = .move a ∧ a.size = some m ∧ n < m := by
  have typed := (sanityCheck_ok.mp checked).1
  have assigned : stmt.assignee.size = some n := by rw [variable_, Lvalue.size]
  by_cases moves : ∃ a, stmt.op = .move a
  · obtain ⟨a, move⟩ := moves
    have kept : (execute (.move a)).size = a.size := by cases a <;> rfl
    rw [Statement.typecheck, move] at typed
    simp only [Statement.typecheckUnop, assigned] at typed
    rw [move, assigned, kept, ← size_eq_none, kept]
    cases size : a.size with
    | none => simp [size]
    | some m =>
      have fits : n ≤ m := by simpa [size] using typed
      simp only [reduceCtorEq, Option.some.injEq, false_or, Operation.move.injEq]
      constructor
      · rintro rfl ⟨_, m', rfl, same, less⟩
        rw [size] at same
        simp only [Option.some.injEq] at same
        omega
      · intro none
        by_contra different
        exact none ⟨a, m, rfl, size, by omega⟩
  · have other : ∀ a, stmt.op ≠ .move a := fun a move => moves ⟨a, move⟩
    have sized : execute stmt.op = .undefined ∨ (execute stmt.op).size = stmt.assignee.size := by
      rcases execute_sized typed with undefined | size
      · exact .inl undefined
      · rcases typecheck_resultSize typed assigned other with undefined | none | some
        · exact .inl undefined
        · exact .inl (size_eq_none.mp (size.trans none))
        · exact .inr ((size.trans some).trans assigned.symm)
    simp only [sized, true_iff]
    rintro ⟨a, m, move, -⟩
    exact other a move

/-- A 16 bit constant moved to an 8 bit variable passes the check and stays 16 bits wide. -/
theorem not_size_move_narrow :
    let stmt : Statement := ⟨.var "x" none 8, .move (.constant 0x1ff 16)⟩
    stmt.sanityCheck = .ok () ∧ ¬(execute stmt.op = .undefined ∨ (execute stmt.op).size = stmt.assignee.size) := by
  decide

theorem sanityCheck_size_add :
    let stmt : Statement := ⟨.var "x" none 8, .add (.var "y" none 8 8) (.constant 0 8)⟩
    execute stmt.op = .undefined ∨ (execute stmt.op).size = stmt.assignee.size :=
  (sanityCheck_size (by decide) rfl).mpr (by simp)

end Proofs.Folding

end Panopticon
