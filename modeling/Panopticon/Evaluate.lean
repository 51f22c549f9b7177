import Panopticon.Statement
import Panopticon.Library.Word

/-! The evaluator of RREIL operations, with its shortcuts for operands that are not constants,
and the extraction of bit ranges. The build has no debug assertions. -/

namespace Panopticon
open Panopticon.Library.Word

namespace Rvalue

/-- Returns a new value with `s` bits starting at `o`. -/
def extract (rv : Rvalue) (s o : Nat) : Except String Rvalue :=
  if s = 0 then .error "can't extract zero bits"
  else match rv with
    | .constant value size =>
      if s + o ≤ size then .ok (.constant ((value >>> o.toUInt64) % bit s.toUInt64) s)
      else .error "Rvalue::extract: invalid argument"
    | .var name subscript offset size =>
      if s + o ≤ size then .ok (.var name subscript (offset + o) s)
      else .error "Rvalue::extract: invalid argument"
    | .undefined => .ok .undefined

end Rvalue

/-- Returns a new value with `s` bits starting at `o`. -/
def Lvalue.extract (lv : Lvalue) (s o : Nat) : Except String Rvalue :=
  if s = 0 then .error "can't extract zero bits"
  else match lv with
    | .var name subscript size =>
      if s + o ≤ size then .ok (.var name subscript o s)
      else .error "Rvalue::extract: invalid argument"
    | .undefined => .ok .undefined

def flag (holds : Bool) : Rvalue := .constant (if holds then 1 else 0) 1

namespace Evaluate

def divideUnsigned (s : Nat) (a b : UInt64) : Rvalue :=
  if b &&& mask s = 0 then .undefined else .constant ((a / b) &&& mask s) s

def divideSigned (s : Nat) (a b : UInt64) : Rvalue :=
  let quotient := (signed s a / signed s b).toUInt64
  if signed s b = 0 then .undefined
  else .constant (if s < 64 then quotient % bit s.toUInt64 else quotient) s

def shiftRightUnsigned (s : Nat) (a b : UInt64) : Rvalue :=
  if s.toUInt64 ≤ b then .constant 0 s
  else .constant ((a >>> (min (min 64 s) b.toNat).toUInt64) &&& mask s) s

def shiftRightSigned (s : Nat) (a b : UInt64) : Rvalue :=
  if s.toUInt64 ≤ b then .constant (if signed s a < 0 then mask s else 0) s
  else .constant ((signed s a >>> b.toInt64).toUInt64 &&& mask s) s

/-- Sign bits are told apart first, the bits below them next. From 64 bits on there is no sign bit. -/
def lessOrEqualSigned (s : Nat) (a b : UInt64) : Rvalue :=
  let below := if s < 64 then bit (s.toUInt64 - 1) - 1 else 0xffffffffffffffff
  let sign := if s < 64 then bit (s.toUInt64 - 1) else 0
  if (a &&& sign) ^^^ (b &&& sign) ≠ 0 then flag (a &&& sign ≠ 0)
  else flag (a &&& below ≤ b &&& below)

def signExtend (t : Nat) (v : UInt64) (s : Nat) : Rvalue :=
  let sign := if s < 64 then bit (s.toUInt64 - 1) else 0
  if v &&& sign = 0 then .constant ((v &&& mask s) &&& mask t) t
  else .constant ((v &&& mask s) ||| (mask t &&& ~~~mask s)) t

def select (off : Nat) (a : UInt64) (s : Nat) (b : UInt64) (w : Nat) : Rvalue :=
  if off + w < 64 then
    let hi := a >>> (off + w).toUInt64
    let lo := a % bit off.toUInt64
    .constant (lo ||| (b <<< off.toUInt64) ||| (hi <<< (off + w).toUInt64)) s
  else .undefined

theorem divideUnsigned_cases (s : Nat) (a b : UInt64) :
    divideUnsigned s a b = .undefined ∨ ∃ v, divideUnsigned s a b = .constant v s := by
  unfold divideUnsigned
  split
  · exact .inl rfl
  · exact .inr ⟨_, rfl⟩

theorem divideSigned_cases (s : Nat) (a b : UInt64) :
    divideSigned s a b = .undefined ∨ ∃ v, divideSigned s a b = .constant v s := by
  simp only [divideSigned]
  split
  · exact .inl rfl
  · exact .inr ⟨_, rfl⟩

theorem shiftRightUnsigned_eq_constant (s : Nat) (a b : UInt64) : ∃ v, shiftRightUnsigned s a b = .constant v s := by
  unfold shiftRightUnsigned
  split
  · exact ⟨_, rfl⟩
  · exact ⟨_, rfl⟩

theorem shiftRightSigned_eq_constant (s : Nat) (a b : UInt64) : ∃ v, shiftRightSigned s a b = .constant v s := by
  unfold shiftRightSigned
  split
  · exact ⟨_, rfl⟩
  · exact ⟨_, rfl⟩

theorem lessOrEqualSigned_flag (s : Nat) (a b : UInt64) : ∃ holds, lessOrEqualSigned s a b = flag holds := by
  simp only [lessOrEqualSigned]
  split_ifs
  all_goals exact ⟨_, rfl⟩

theorem signExtend_eq_constant (t : Nat) (v : UInt64) (s : Nat) : ∃ w, signExtend t v s = .constant w t := by
  simp only [signExtend]
  split_ifs
  all_goals exact ⟨_, rfl⟩

theorem select_cases (off : Nat) (a : UInt64) (s : Nat) (b : UInt64) (w : Nat) :
    select off a s b w = .undefined ∨ ∃ v, select off a s b w = .constant v s := by
  simp only [select]
  split
  · exact .inr ⟨_, rfl⟩
  · exact .inl rfl

end Evaluate

open Evaluate in
def execute : Operation Rvalue → Rvalue
  | .add (.constant a s) (.constant b _) => .constant ((a + b) &&& mask s) s
  | .add (.constant 0 _) b => b
  | .add a (.constant 0 _) => a
  | .add _ _ => .undefined
  | .subtract (.constant a s) (.constant b _) => .constant ((a - b) &&& mask s) s
  | .subtract a (.constant 0 _) => a
  | .subtract _ _ => .undefined
  | .multiply (.constant a s) (.constant b _) => .constant ((a * b) &&& mask s) s
  | .multiply (.constant 0 s) _ => .constant 0 s
  | .multiply _ (.constant 0 s) => .constant 0 s
  | .multiply (.constant 1 _) b => b
  | .multiply a (.constant 1 _) => a
  | .multiply _ _ => .undefined
  | .divideUnsigned _ (.constant 0 _) => .undefined
  | .divideUnsigned (.constant a s) (.constant b _) => divideUnsigned s a b
  | .divideUnsigned a (.constant 1 _) => a
  | .divideUnsigned (.constant 0 s) _ => .constant 0 s
  | .divideUnsigned _ _ => .undefined
  | .divideSigned _ (.constant 0 _) => .undefined
  | .divideSigned (.constant a s) (.constant b _) => divideSigned s a b
  | .divideSigned a (.constant 1 _) => a
  | .divideSigned (.constant 0 s) _ => .constant 0 s
  | .divideSigned _ _ => .undefined
  | .modulo _ (.constant 0 _) => .undefined
  | .modulo (.constant a s) (.constant b _) => .constant ((a % b) &&& mask s) s
  | .modulo (.constant 0 s) _ => .constant 0 s
  | .modulo _ (.constant 1 s) => .constant 0 s
  | .modulo _ _ => .undefined
  | .shiftLeft (.constant a s) (.constant b _) => .constant ((a <<< b) &&& mask s) s
  | .shiftLeft (.constant 0 s) _ => .constant 0 s
  | .shiftLeft a (.constant 0 _) => a
  | .shiftLeft _ _ => .undefined
  | .shiftRightUnsigned (.constant a s) (.constant b _) => shiftRightUnsigned s a b
  | .shiftRightUnsigned (.constant 0 s) _ => .constant 0 s
  | .shiftRightUnsigned a (.constant 0 _) => a
  | .shiftRightUnsigned _ _ => .undefined
  | .shiftRightSigned (.constant a s) (.constant b _) => shiftRightSigned s a b
  | .shiftRightSigned (.constant 0 s) _ => .constant 0 s
  | .shiftRightSigned a (.constant 0 _) => a
  | .shiftRightSigned _ _ => .undefined
  | .and (.constant a s) (.constant b _) => .constant ((a &&& mask s) &&& (b &&& mask s)) s
  | .and _ (.constant 0 s) => .constant 0 s
  | .and (.constant 0 s) _ => .constant 0 s
  | .and _ _ => .undefined
  | .inclusiveOr (.constant a s) (.constant b _) => .constant ((a &&& mask s) ||| (b &&& mask s)) s
  | .inclusiveOr a (.constant 0 _) => a
  | .inclusiveOr (.constant 0 _) b => b
  | .inclusiveOr _ _ => .undefined
  | .exclusiveOr (.constant a s) (.constant b _) => .constant ((a &&& mask s) ^^^ (b &&& mask s)) s
  | .exclusiveOr _ _ => .undefined
  | .equal (.constant a s) (.constant b _) => flag (a &&& mask s = b &&& mask s)
  | .equal _ _ => .undefined
  | .lessOrEqualUnsigned (.constant a s) (.constant b _) => flag (a &&& mask s ≤ b &&& mask s)
  | .lessOrEqualUnsigned (.constant 0 _) _ => .constant 1 1
  | .lessOrEqualUnsigned _ _ => .undefined
  | .lessOrEqualSigned (.constant a s) (.constant b _) => lessOrEqualSigned s a b
  | .lessOrEqualSigned _ _ => .undefined
  | .lessUnsigned (.constant a s) (.constant b t) =>
    -- the second mask is only applied when the second size is below 64
    flag (a &&& mask s < (if t < 64 then b &&& (bit s.toUInt64 - 1) else b))
  | .lessUnsigned _ _ => .undefined
  | .lessSigned (.constant a s) (.constant b _) => flag (signed s a < signed s b)
  | .lessSigned _ _ => .undefined
  | .zeroExtend t (.constant v s) => .constant ((v &&& mask s) &&& mask t) t
  | .zeroExtend t (.var name subscript _ _) => .var name subscript 0 t
  | .zeroExtend _ .undefined => .undefined
  | .signExtend t (.constant v s) => signExtend t v s
  | .signExtend t (.var name subscript _ _) => .var name subscript 0 t
  | .signExtend _ .undefined => .undefined
  | .move (.constant value size) => .constant (value &&& mask size) size
  | .move a => a
  | .initialized _ _ => .undefined
  | .call _ => .undefined
  | .select off (.constant a s) (.constant b w) => select off a s b w
  | .select _ _ _ => .undefined
  | .load _ _ _ _ => .undefined
  | .store _ _ _ _ _ => .undefined
  | .phi [] => .undefined
  | .phi (first :: rest) => if ∀ other ∈ first :: rest, first = other then first else .undefined

theorem execute_phi_cons (first : Rvalue) (rest : List Rvalue) : execute (.phi (first :: rest)) =
    if ∀ other ∈ first :: rest, first = other then first else .undefined := rfl

@[simp] theorem execute_phi_singleton (a : Rvalue) : execute (.phi [a]) = a := by
  simp [execute_phi_cons]

section Constants
variable (a b : UInt64) (s t : Nat)

theorem execute_and :
    execute (.and (.constant a s) (.constant b t)) = .constant ((a &&& mask s) &&& (b &&& mask s)) s := rfl

theorem execute_inclusiveOr :
    execute (.inclusiveOr (.constant a s) (.constant b t)) = .constant ((a &&& mask s) ||| (b &&& mask s)) s := rfl

theorem execute_exclusiveOr :
    execute (.exclusiveOr (.constant a s) (.constant b t)) = .constant ((a &&& mask s) ^^^ (b &&& mask s)) s := rfl

theorem execute_equal :
    execute (.equal (.constant a s) (.constant b t)) = flag (a &&& mask s = b &&& mask s) := rfl

theorem execute_lessOrEqualUnsigned :
    execute (.lessOrEqualUnsigned (.constant a s) (.constant b t)) = flag (a &&& mask s ≤ b &&& mask s) := rfl

theorem execute_zeroExtend : execute (.zeroExtend t (.constant a s)) = .constant ((a &&& mask s) &&& mask t) t := rfl

theorem execute_move : execute (.move (.constant a s)) = .constant (a &&& mask s) s := rfl

end Constants

section Nonzero
variable {b : UInt64} (nonzero : b ≠ 0) (a : UInt64) (s t : Nat)
include nonzero

theorem execute_divideUnsigned : execute (.divideUnsigned (.constant a s) (.constant b t)) = Evaluate.divideUnsigned s a b := by
  obtain ⟨⟨⟨n, bound⟩⟩⟩ := b
  rcases n with - | - | n
  · exact absurd rfl nonzero
  · rfl
  · rfl

theorem execute_divideSigned : execute (.divideSigned (.constant a s) (.constant b t)) = Evaluate.divideSigned s a b := by
  obtain ⟨⟨⟨n, bound⟩⟩⟩ := b
  rcases n with - | - | n
  · exact absurd rfl nonzero
  · rfl
  · rfl

theorem execute_modulo : execute (.modulo (.constant a s) (.constant b t)) = .constant ((a % b) &&& mask s) s := by
  obtain ⟨⟨⟨n, bound⟩⟩⟩ := b
  rcases n with - | - | n
  · exact absurd rfl nonzero
  · rfl
  · rfl

end Nonzero

theorem Rvalue.constant?_eq_some {a : Rvalue} {v : UInt64} : a.constant? = some v ↔ ∃ s, a = .constant v s := by
  cases a <;> simp [Rvalue.constant?, eq_comm]

theorem Rvalue.eq_constant_of_ne_none {a : Rvalue} (known : a.constant? ≠ none) : ∃ v s, a = .constant v s := by
  obtain ⟨v, value⟩ := Option.ne_none_iff_exists'.mp known
  exact ⟨v, Rvalue.constant?_eq_some.mp value⟩

theorem execute_constants (op : Operation Rvalue) (constants : ∀ rv ∈ op.operands, rv.constant? ≠ none) :
    execute op = .undefined ∨ ∃ v s, execute op = .constant v s := by
  have known := fun rv member => Rvalue.eq_constant_of_ne_none (constants rv member)
  cases op with
  | add a b | subtract a b | multiply a b | shiftLeft a b | and a b | inclusiveOr a b | exclusiveOr a b | equal a b
  | lessOrEqualUnsigned a b | lessUnsigned a b | lessSigned a b =>
    obtain ⟨v, s, rfl⟩ := known a (by simp [Operation.operands])
    obtain ⟨w, t, rfl⟩ := known b (by simp [Operation.operands])
    exact .inr ⟨_, _, rfl⟩
  | divideUnsigned a b =>
    obtain ⟨v, s, rfl⟩ := known a (by simp [Operation.operands])
    obtain ⟨w, t, rfl⟩ := known b (by simp [Operation.operands])
    rcases eq_or_ne w 0 with rfl | nonzero
    · exact .inl rfl
    · rw [execute_divideUnsigned nonzero]
      exact (Evaluate.divideUnsigned_cases s v w).imp_right (Exists.imp fun _ result => ⟨s, result⟩)
  | divideSigned a b =>
    obtain ⟨v, s, rfl⟩ := known a (by simp [Operation.operands])
    obtain ⟨w, t, rfl⟩ := known b (by simp [Operation.operands])
    rcases eq_or_ne w 0 with rfl | nonzero
    · exact .inl rfl
    · rw [execute_divideSigned nonzero]
      exact (Evaluate.divideSigned_cases s v w).imp_right (Exists.imp fun _ result => ⟨s, result⟩)
  | modulo a b =>
    obtain ⟨v, s, rfl⟩ := known a (by simp [Operation.operands])
    obtain ⟨w, t, rfl⟩ := known b (by simp [Operation.operands])
    rcases eq_or_ne w 0 with rfl | nonzero
    · exact .inl rfl
    · exact .inr ⟨_, _, execute_modulo nonzero v s t⟩
  | shiftRightUnsigned a b =>
    obtain ⟨v, s, rfl⟩ := known a (by simp [Operation.operands])
    obtain ⟨w, t, rfl⟩ := known b (by simp [Operation.operands])
    exact .inr ((Evaluate.shiftRightUnsigned_eq_constant s v w).imp fun r result => ⟨s, result⟩)
  | shiftRightSigned a b =>
    obtain ⟨v, s, rfl⟩ := known a (by simp [Operation.operands])
    obtain ⟨w, t, rfl⟩ := known b (by simp [Operation.operands])
    exact .inr ((Evaluate.shiftRightSigned_eq_constant s v w).imp fun r result => ⟨s, result⟩)
  | lessOrEqualSigned a b =>
    obtain ⟨v, s, rfl⟩ := known a (by simp [Operation.operands])
    obtain ⟨w, t, rfl⟩ := known b (by simp [Operation.operands])
    obtain ⟨holds, result⟩ := Evaluate.lessOrEqualSigned_flag s v w
    exact .inr ⟨_, _, result⟩
  | zeroExtend t a =>
    obtain ⟨v, s, rfl⟩ := known a (by simp [Operation.operands])
    exact .inr ⟨_, _, rfl⟩
  | signExtend t a =>
    obtain ⟨v, s, rfl⟩ := known a (by simp [Operation.operands])
    exact .inr ((Evaluate.signExtend_eq_constant t v s).imp fun r result => ⟨t, result⟩)
  | move a =>
    obtain ⟨v, s, rfl⟩ := known a (by simp [Operation.operands])
    exact .inr ⟨_, _, rfl⟩
  | select off a b =>
    obtain ⟨v, s, rfl⟩ := known a (by simp [Operation.operands])
    obtain ⟨w, t, rfl⟩ := known b (by simp [Operation.operands])
    exact (Evaluate.select_cases off v s w t).imp_right (Exists.imp fun _ result => ⟨s, result⟩)
  | phi operands =>
    cases operands with
    | nil => exact .inl rfl
    | cons first rest =>
      rw [execute_phi_cons]
      split
      · exact .inr (known first (by simp [Operation.operands]))
      · exact .inl rfl
  | call a => exact .inl rfl
  | initialized name size => exact .inl rfl
  | load region endianess size a => exact .inl rfl
  | store region endianess size a b => exact .inl rfl

end Panopticon
