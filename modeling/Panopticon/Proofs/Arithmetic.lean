import Panopticon.Proofs.Extension
import Panopticon.Proofs.Generated
import Panopticon.Proofs.Subtraction

/-! Arithmetic of amd64 as one family: each operation extends its operands, computes the result
of its own into `res`, sets the flags, and writes `res` without a look at the destination. -/

namespace Panopticon.Proofs.Arithmetic
open Panopticon.Library Panopticon.Library.Word WriteRegister Generated Addition Subtraction Extension
open Amd64.Semantic (setAdjFlag setSubAdjFlag setParityFlag setCarryFlag setSubCarryFlag setOverflowFlag
  setSubOverflowFlag writeReg registerFamilies bitwiseFlags)

/-- The variables the code uses beside the result and the value that is written. -/
def working : List String :=
  ["cf", "SF", "ZF", "CF", "PF", "AF", "OF", "af1", "af2", "cf1", "cf2", "of1", "of2", "half_res"]

section Flags

variable {n : Nat} {x : String} {b : Rvalue}

private theorem setAdjFlag_gives (nibble : 4 ≤ n) : Gives (setAdjFlag (.var "res" none n) (.var x none 0 n)) (Keeps working) :=
  (gives_of_emits fun _ => setAdjFlag_emits nibble).keeps (fun _ _ => And.right) (by decide)

private theorem setSubAdjFlag_gives (nibble : 4 ≤ n) : Gives (setSubAdjFlag (.var "res" none n) (.var x none 0 n)) (Keeps working) :=
  (gives_of_emits fun _ => setSubAdjFlag_emits nibble).keeps (fun _ _ => And.right) (by decide)

private theorem setCarryFlag_gives (positive : n ≠ 0) (fresh : x ∉ temporaries) :
    Gives (setCarryFlag (.var "res" none n) (.var x none 0 n)) (Keeps working) :=
  (gives_of_emits fun _ => setCarryFlag_emits positive fresh).keeps (fun _ _ => And.right) (by decide)

theorem setSubCarryFlag_gives (positive : n ≠ 0) (fresh : x ∉ temporaries) :
    Gives (setSubCarryFlag (.var "res" none n) (.var x none 0 n)) (Keeps working) :=
  (gives_of_emits fun _ => setSubCarryFlag_emits positive fresh).keeps (fun _ _ => And.right) (by decide)

theorem setParityFlag_gives (byte : 8 ≤ n) : Gives (setParityFlag (.var "res" none n)) (Keeps working) :=
  (gives_of_emits fun _ => setParityFlag_emits byte).keeps (fun _ _ => And.right) (by decide)

attribute [local simp] size_var size_constant size_undefined Amd64.Semantic.bit Statement.sanityCheck
  Statement.typecheck Statement.typecheckCmpop Statement.typecheckBinop Statement.typecheckUnop Operation.operands Lvalue.size Lvalue.toRvalue
  Statement.total sets working

theorem setOverflowFlag_gives (positive : n ≠ 0) (sized : b.size = some n) :
    Gives (setOverflowFlag (.var "res" none n) (.var x none 0 n) b n) (Keeps working) := by
  apply gives_keeps
  · simp [pure, Except.pure, bind, Except.bind, positive, sized]
  · simp

theorem setSubOverflowFlag_gives (positive : n ≠ 0) (sized : b.size = some n) :
    Gives (setSubOverflowFlag (.var "res" none n) (.var x none 0 n) b n) (Keeps working) := by
  apply gives_keeps
  · simp [pure, Except.pure, bind, Except.bind, positive, sized]
  · simp

/-- The result is known, and besides it only the variables of the helpers have changed. -/
structure Ready (result : Nat) (before after : Valuation) : Prop where
  result : after "res" none = result
  kept : Keeps ("res" :: working) before after

theorem Ready.step {result : Nat} {before middle after : Valuation} (ready : Ready result before middle)
    (kept : Keeps working middle after) : Ready result before after := by
  constructor
  · rw [kept "res" (by decide), ready.result]
  · have both := ready.kept.trans (kept.mono (List.subset_cons_self "res" working))
    exact both.mono (List.append_subset.mpr ⟨List.Subset.refl _, List.Subset.refl _⟩)

theorem ready_append {first second : List Statement} {result : Nat} {ρ : Valuation}
    (leads : Leads Statement.Steps first ρ (Ready result ρ)) (rest : ∀ ρ, Leads Statement.Steps second ρ (Keeps working ρ)) :
    Leads Statement.Steps (first ++ second) ρ (Ready result ρ) :=
  leads.append fun middle ready => (rest middle).imp fun _ kept => ready.step kept

/-- The statements up to the one that sets the result for good have one run, the others leave it alone. -/
theorem gives_ready (head : List Statement) {rest : List Statement} {result : Valuation → Nat}
    (checked : ∀ stmt ∈ head ++ rest, stmt.sanityCheck = .ok ()) (known : ∀ stmt ∈ rest, sets working stmt = true)
    (ran : ∀ ρ, ∃ middle, run head ρ = some middle ∧ Ready (result ρ) ρ middle) :
    Gives (.ofExcept (rreil (head ++ rest))) fun ρ => Ready (result ρ) ρ := by
  have gives : Gives (.ofExcept (rreil (head ++ rest ++ []))) fun ρ => Ready (result ρ) ρ :=
    gives_around (by simpa using checked) known ran (fun _ _ _ ready kept => ready.step kept)
      fun _ middle ready => ⟨middle, rfl, ready⟩
  simpa using gives

end Flags

/-- The arithmetic of two operands. -/
inductive Opcode where
  | add
  | adc
  | sub
  | sbb
  | and
  | or
  | xor
  deriving DecidableEq, Repr

namespace Opcode

def code : Opcode → Rvalue → Rvalue → Outcome String (List Statement × Amd64.JumpSpec)
  | .add => Amd64.Semantic.add
  | .adc => Amd64.Semantic.adc
  | .sub => Amd64.Semantic.sub
  | .sbb => Amd64.Semantic.sbb
  | .and => Amd64.Semantic.and
  | .or => Amd64.Semantic.or
  | .xor => Amd64.Semantic.xor

/-- The number the operation has as its result in `n` bits, under a carry `c`. -/
def result (n a b c : Nat) : Opcode → Nat
  | .add => (a + b) % 2 ^ n
  | .adc => (a + b + c) % 2 ^ n
  | .sub => difference n a b 0
  | .sbb => difference n a b c
  | .and => a &&& b
  | .or => a ||| b
  | .xor => a ^^^ b

theorem result_lt {n a b c : Nat} (smallA : a < 2 ^ n) (smallB : b < 2 ^ n) (opcode : Opcode) :
    opcode.result n a b c < 2 ^ n := by
  cases opcode with
  | add | adc => exact Nat.mod_lt _ (by positivity)
  | sub | sbb => exact difference_lt
  | and => exact Nat.and_lt_two_pow _ smallB
  | or => exact Nat.or_lt_two_pow smallA smallB
  | xor => exact Nat.xor_lt_two_pow smallA smallB

end Opcode

/-- After its operands are extended, the code computes the result and writes it. -/
def Writes (opcode : Opcode) (a b : Rvalue) (ext : List Statement) (n : Nat) (x : String) (y : Rvalue)
    (write : Valuation → Valuation → Prop) : Prop :=
  ∃ stmts, opcode.code a b = .returns (ext ++ stmts, .fallThru) ∧ ∀ ρ, Leads Statement.Steps stmts ρ fun after =>
    ∃ middle, Ready (opcode.result n (ρ x none % 2 ^ n) (y.bits ρ).value (ρ "CF" none % 2)) ρ middle ∧ write middle after

section Writes

variable {a b y : Rvalue} {x : String} {n : Nat} {ext : List Statement} {write : Valuation → Valuation → Prop}

theorem ready_of_assign {ρ : Valuation} {v : Nat} :
    Ready v ρ fun name s => if name = "res" ∧ s = none then v else ρ name s := by
  constructor
  · simp
  · intro name other
    simp at other
    simp [other]

theorem value_ofInt_sub (u v : Nat) : (Bits.ofInt n ((u : Int) % 2 ^ n - v)).value = difference n (u % 2 ^ n) v 0 := by
  simp [Bits.ofInt, difference]

private theorem value_ofInt_carry (u v c : Nat) :
    (Bits.ofInt n ((difference n u v 0 : Int) % 2 ^ n - (c : Int) % 2 % 2 ^ n)).value = difference n u v (c % 2) := by
  have step := value_ofInt_sub (n := n) (difference n u v 0) (c % 2 % 2 ^ n)
  push_cast at step
  rw [step, Nat.mod_eq_of_lt difference_lt, difference_carry]

theorem ready_of_carry {ρ : Valuation} {u v w : Nat} :
    Ready w ρ fun name s =>
      if name = "res" ∧ s = none then w
      else if name = "cf" ∧ s = none then v else if name = "res" ∧ s = none then u else ρ name s := by
  constructor
  · simp
  · intro name other
    simp [working] at other
    simp [other]

attribute [local simp] size_var size_constant size_undefined bits_var Amd64.Semantic.bit Statement.sanityCheck
  Statement.typecheck Statement.typecheckCmpop Statement.typecheckBinop Statement.typecheckUnop Operation.operands Operation.lift
  Operation.result Lvalue.size Lvalue.toRvalue Statement.total sets working run Statement.next Valuation.assign

variable (extension : Amd64.Semantic.signExtend a b = .returns (.var x none 0 n, y, n, ext)) (byte : 8 ≤ n)
  (sized : y.size = some n) (writes : Gives (writeReg a (.var "res" none 0 n) n) write)

include extension byte sized writes

private theorem add_writes : Writes .add a b ext n x y write := by
  have positive : n ≠ 0 := by omega
  obtain ⟨sum, code1, leads1⟩ : Gives (.ofExcept (rreil ([⟨.var "res" none n, .add (.var x none 0 n) y⟩] ++ [
      ⟨.var "SF" none 1, .lessSigned (.var "res" none 0 n) (.constant 0 n)⟩,
      ⟨.var "ZF" none 1, .equal (.var "res" none 0 n) (.constant 0 n)⟩,
      ⟨.var "CF" none 1, .lessUnsigned (.var "res" none 0 n) (.var x none 0 n)⟩])))
      fun ρ => Ready ((ρ x none % 2 ^ n + (y.bits ρ).value) % 2 ^ n) ρ := by
    apply gives_ready
    · simp [pure, Except.pure, bind, Except.bind, positive, sized]
    · simp
    · intro ρ
      simp [bits_size sized, undefined_ne sized]
      exact ready_of_assign
  obtain ⟨adjust, code2, leads2⟩ := setAdjFlag_gives (x := x) (show 4 ≤ n by omega)
  obtain ⟨overflow, code3, leads3⟩ := setOverflowFlag_gives (x := x) positive sized
  obtain ⟨parity, code4, leads4⟩ := setParityFlag_gives byte
  obtain ⟨last, code5, leads5⟩ := writes
  refine ⟨sum ++ adjust ++ overflow ++ parity ++ last, ?_, fun ρ => ?_⟩
  · rw [Opcode.code, Amd64.Semantic.add, extension]
    simp only [Outcome.returns_bind, Lvalue.toRvalue, List.singleton_append] at code1 ⊢
    simp only [code1, code2, code3, code4, code5, Outcome.returns_bind, Outcome.pure_eq, List.append_assoc]
  · refine (ready_append (ready_append (ready_append (leads1 ρ) leads2) leads3) leads4).append fun middle ready => ?_
    exact (leads5 middle).imp fun after written => ⟨middle, ready, written⟩

private theorem sub_writes (fresh : x ∉ temporaries) : Writes .sub a b ext n x y write := by
  have positive : n ≠ 0 := by omega
  obtain ⟨rest, code1, leads1⟩ : Gives (.ofExcept (rreil ([⟨.var "res" none n, .subtract (.var x none 0 n) y⟩] ++ [
      ⟨.var "SF" none 1, .lessSigned (.var "res" none 0 n) (.constant 0 n)⟩,
      ⟨.var "ZF" none 1, .equal (.var "res" none 0 n) (.constant 0 n)⟩])))
      fun ρ => Ready (difference n (ρ x none % 2 ^ n) (y.bits ρ).value 0) ρ := by
    apply gives_ready
    · simp [pure, Except.pure, bind, Except.bind, positive, sized]
    · simp
    · intro ρ
      simp [bits_size sized, undefined_ne sized, value_ofInt_sub, Nat.mod_eq_of_lt difference_lt]
      exact ready_of_assign
  obtain ⟨carry, code2, leads2⟩ := setSubCarryFlag_gives (x := x) positive fresh
  obtain ⟨adjust, code3, leads3⟩ := setSubAdjFlag_gives (x := x) (show 4 ≤ n by omega)
  obtain ⟨overflow, code4, leads4⟩ := setSubOverflowFlag_gives (x := x) positive sized
  obtain ⟨parity, code5, leads5⟩ := setParityFlag_gives byte
  obtain ⟨last, code6, leads6⟩ := writes
  refine ⟨rest ++ carry ++ adjust ++ overflow ++ parity ++ last, ?_, fun ρ => ?_⟩
  · rw [Opcode.code, Amd64.Semantic.sub, extension]
    simp only [Outcome.returns_bind, Lvalue.toRvalue, List.singleton_append] at code1 ⊢
    simp only [code1, code2, code3, code4, code5, code6, Outcome.returns_bind, Outcome.pure_eq, List.append_assoc]
  · refine (ready_append (ready_append (ready_append (ready_append (leads1 ρ) leads2) leads3) leads4) leads5).append
      fun middle ready => ?_
    exact (leads6 middle).imp fun after written => ⟨middle, ready, written⟩

private theorem adc_writes (fresh : x ∉ temporaries) : Writes .adc a b ext n x y write := by
  have positive : n ≠ 0 := by omega
  have nibble : 4 ≤ n := by omega
  obtain ⟨sum, code1, leads1⟩ : Gives (.ofExcept (rreil ([
      ⟨.var "res" none n, .add (.var x none 0 n) y⟩,
      ⟨.var "cf" none n, .zeroExtend n (Amd64.Semantic.bit "CF" 0)⟩,
      ⟨.var "res" none n, .add (.var "res" none 0 n) (.var "cf" none 0 n)⟩] ++ [
      ⟨.var "SF" none 1, .lessSigned (.var "res" none 0 n) (.constant 0 n)⟩,
      ⟨.var "ZF" none 1, .equal (.var "res" none 0 n) (.constant 0 n)⟩,
      ⟨.var "af1" none 1, .equal (.var "res" none 0 4) (.var x none 0 4)⟩,
      ⟨.var "af2" none 1, .lessUnsigned (.var "res" none 0 4) (.var x none 0 4)⟩,
      ⟨.var "af1" none 1, .and (Amd64.Semantic.bit "af1" 0) (Amd64.Semantic.bit "CF" 0)⟩,
      ⟨.var "AF" none 1, .inclusiveOr (Amd64.Semantic.bit "af1" 0) (Amd64.Semantic.bit "af2" 0)⟩])))
      fun ρ => Ready ((ρ x none % 2 ^ n + (y.bits ρ).value + ρ "CF" none % 2) % 2 ^ n) ρ := by
    apply gives_ready
    · simp [pure, Except.pure, bind, Except.bind, positive, sized]
    · simp
    · intro ρ
      simp [bits_size sized, undefined_ne sized]
      have same : (ρ x none % 2 ^ n + (y.bits ρ).value + ρ "CF" none % 2) % 2 ^ n =
          (ρ x none + (y.bits ρ).value + ρ "CF" none % 2) % 2 ^ n := by
        rw [add_assoc, Nat.mod_add_mod, add_assoc]
      rw [same]
      exact ready_of_carry
  obtain ⟨carry, code2, leads2⟩ := setCarryFlag_gives (x := x) positive fresh
  obtain ⟨overflow, code3, leads3⟩ := setOverflowFlag_gives (x := x) positive sized
  obtain ⟨parity, code4, leads4⟩ := setParityFlag_gives byte
  obtain ⟨last, code5, leads5⟩ := writes
  have low : (Lvalue.var "res" none n).extract 4 0 = .ok (.var "res" none 0 4) := by simp [Lvalue.extract, nibble]
  have lowA : (Rvalue.var x none 0 n).extract 4 0 = .ok (.var x none 0 4) := by simp [Rvalue.extract, nibble]
  refine ⟨sum ++ carry ++ overflow ++ parity ++ last, ?_, fun ρ => ?_⟩
  · rw [Opcode.code, Amd64.Semantic.adc, extension]
    simp only [Outcome.returns_bind, Lvalue.toRvalue, List.cons_append, List.nil_append, low, lowA, Except.toOption,
      Outcome.unwrap] at code1 ⊢
    simp only [code1, code2, code3, code4, code5, Outcome.returns_bind, Outcome.pure_eq, List.append_assoc]
  · refine (ready_append (ready_append (ready_append (leads1 ρ) leads2) leads3) leads4).append fun middle ready => ?_
    exact (leads5 middle).imp fun after written => ⟨middle, ready, written⟩

private theorem sbb_writes (fresh : x ∉ temporaries) : Writes .sbb a b ext n x y write := by
  have positive : n ≠ 0 := by omega
  have nibble : 4 ≤ n := by omega
  obtain ⟨rest, code1, leads1⟩ : Gives (.ofExcept (rreil ([
      ⟨.var "res" none n, .subtract (.var x none 0 n) y⟩,
      ⟨.var "cf" none n, .zeroExtend n (Amd64.Semantic.bit "CF" 0)⟩,
      ⟨.var "res" none n, .subtract (.var "res" none 0 n) (.var "cf" none 0 n)⟩] ++ [
      ⟨.var "SF" none 1, .lessSigned (.var "res" none 0 n) (.constant 0 n)⟩,
      ⟨.var "ZF" none 1, .equal (.var "res" none 0 n) (.constant 0 n)⟩,
      ⟨.var "af1" none 1, .equal (.var "res" none 0 4) (.var x none 0 4)⟩,
      ⟨.var "af2" none 1, .lessUnsigned (.var x none 0 4) (.var "res" none 0 4)⟩,
      ⟨.var "af1" none 1, .and (Amd64.Semantic.bit "af1" 0) (Amd64.Semantic.bit "CF" 0)⟩,
      ⟨.var "AF" none 1, .inclusiveOr (Amd64.Semantic.bit "af1" 0) (Amd64.Semantic.bit "af2" 0)⟩])))
      fun ρ => Ready (difference n (ρ x none % 2 ^ n) (y.bits ρ).value (ρ "CF" none % 2)) ρ := by
    apply gives_ready
    · simp [pure, Except.pure, bind, Except.bind, positive, sized]
    · simp
    · intro ρ
      simp [bits_size sized, undefined_ne sized, value_ofInt_sub, value_ofInt_carry, Nat.mod_eq_of_lt difference_lt]
      exact ready_of_carry
  obtain ⟨carry, code2, leads2⟩ := setSubCarryFlag_gives (x := x) positive fresh
  obtain ⟨overflow, code3, leads3⟩ := setSubOverflowFlag_gives (x := x) positive sized
  obtain ⟨parity, code4, leads4⟩ := setParityFlag_gives byte
  obtain ⟨last, code5, leads5⟩ := writes
  have low : (Lvalue.var "res" none n).extract 4 0 = .ok (.var "res" none 0 4) := by simp [Lvalue.extract, nibble]
  have lowA : (Rvalue.var x none 0 n).extract 4 0 = .ok (.var x none 0 4) := by simp [Rvalue.extract, nibble]
  refine ⟨rest ++ carry ++ overflow ++ parity ++ last, ?_, fun ρ => ?_⟩
  · rw [Opcode.code, Amd64.Semantic.sbb, extension]
    simp only [Outcome.returns_bind, Lvalue.toRvalue, List.cons_append, List.nil_append, low, lowA, Except.toOption,
      Outcome.unwrap] at code1 ⊢
    simp only [code1, code2, code3, code4, code5, Outcome.returns_bind, Outcome.pure_eq, List.append_assoc]
  · refine (ready_append (ready_append (ready_append (leads1 ρ) leads2) leads3) leads4).append fun middle ready => ?_
    exact (leads5 middle).imp fun after written => ⟨middle, ready, written⟩

omit sized in
theorem bitwise_writes {opcode : Opcode} {combine : Rvalue → Rvalue → Nat → List Statement}
    (form : opcode.code a b = Amd64.Semantic.bitwise combine a b)
    (combined : Gives (.ofExcept (rreil (combine (.var x none 0 n) y n)))
      fun ρ => Ready (opcode.result n (ρ x none % 2 ^ n) (y.bits ρ).value (ρ "CF" none % 2)) ρ) :
    Writes opcode a b ext n x y write := by
  obtain ⟨first, code1, leads1⟩ := combined
  obtain ⟨parity, code2, leads2⟩ := setParityFlag_gives byte
  obtain ⟨last, code3, leads3⟩ := writes
  refine ⟨first ++ parity ++ last, ?_, fun ρ => ?_⟩
  · rw [form, Amd64.Semantic.bitwise, extension]
    simp only [Outcome.returns_bind, Lvalue.toRvalue] at code1 ⊢
    simp only [code1, code2, code3, Outcome.returns_bind, Outcome.pure_eq, List.append_assoc]
  · refine (ready_append (leads1 ρ) leads2).append fun middle ready => ?_
    exact (leads3 middle).imp fun after written => ⟨middle, ready, written⟩

private theorem and_writes : Writes .and a b ext n x y write := by
  have positive : n ≠ 0 := by omega
  have form : Opcode.and.code a b =
      Amd64.Semantic.bitwise (fun a b sz => ⟨.var "res" none sz, .and a b⟩ :: bitwiseFlags sz) a b := rfl
  refine bitwise_writes extension byte writes form ?_
  refine gives_ready [⟨.var "res" none n, .and (.var x none 0 n) y⟩] ?_ ?_ fun ρ => ?_
  · simp [pure, Except.pure, bind, Except.bind, positive, sized]
  · simp
  · have small : (ρ x none % 2 ^ n &&& (y.bits ρ).value) % 2 ^ n = ρ x none % 2 ^ n &&& (y.bits ρ).value :=
      Nat.mod_eq_of_lt (Nat.and_lt_two_pow _ (bits_size sized ρ ▸ (y.bits ρ).small))
    simp [bits_size sized, undefined_ne sized, small]
    exact ready_of_assign

private theorem or_writes : Writes .or a b ext n x y write := by
  have positive : n ≠ 0 := by omega
  have form : Opcode.or.code a b =
      Amd64.Semantic.bitwise (fun a b sz => ⟨.var "res" none sz, .inclusiveOr a b⟩ :: bitwiseFlags sz) a b := rfl
  refine bitwise_writes extension byte writes form ?_
  refine gives_ready [⟨.var "res" none n, .inclusiveOr (.var x none 0 n) y⟩] ?_ ?_ fun ρ => ?_
  · simp [pure, Except.pure, bind, Except.bind, positive, sized]
  · simp
  · have small : (ρ x none % 2 ^ n ||| (y.bits ρ).value) % 2 ^ n = ρ x none % 2 ^ n ||| (y.bits ρ).value :=
      Nat.mod_eq_of_lt (Nat.or_lt_two_pow (Nat.mod_lt _ (by positivity)) (bits_size sized ρ ▸ (y.bits ρ).small))
    simp [bits_size sized, undefined_ne sized, small]
    exact ready_of_assign

private theorem xor_writes : Writes .xor a b ext n x y write := by
  have positive : n ≠ 0 := by omega
  refine bitwise_writes extension byte writes (by rw [Opcode.code, Amd64.Semantic.xor]) ?_
  split
  next same =>
    subst same
    refine gives_ready [⟨.var "res" none n, .move (.constant 0 n)⟩] ?_ ?_ fun ρ => ?_
    · simp [pure, Except.pure, bind, Except.bind, positive]
    · simp
    · have empty : Opcode.xor.result n (ρ x none % 2 ^ n) ((Rvalue.var x none 0 n).bits ρ).value (ρ "CF" none % 2) = 0 := by
        simp [Opcode.result]
      rw [empty]
      simp
      exact ready_of_assign
  next =>
    refine gives_ready [⟨.var "res" none n, .exclusiveOr (.var x none 0 n) y⟩] ?_ ?_ fun ρ => ?_
    · simp [pure, Except.pure, bind, Except.bind, positive, sized]
    · simp
    · have small : (ρ x none % 2 ^ n ^^^ (y.bits ρ).value) % 2 ^ n = ρ x none % 2 ^ n ^^^ (y.bits ρ).value :=
        Nat.mod_eq_of_lt (Nat.xor_lt_two_pow (Nat.mod_lt _ (by positivity)) (bits_size sized ρ ▸ (y.bits ρ).small))
      simp [bits_size sized, undefined_ne sized, small]
      exact ready_of_assign

theorem opcode_writes (fresh : x ∉ temporaries) (opcode : Opcode) : Writes opcode a b ext n x y write := by
  cases opcode with
  | add => exact add_writes extension byte sized writes
  | adc => exact adc_writes extension byte sized writes fresh
  | sub => exact sub_writes extension byte sized writes fresh
  | sbb => exact sbb_writes extension byte sized writes fresh
  | and => exact and_writes extension byte sized writes
  | or => exact or_writes extension byte sized writes
  | xor => exact xor_writes extension byte sized writes

end Writes

end Panopticon.Proofs.Arithmetic
