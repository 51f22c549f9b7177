import Panopticon.Avr.Semantic
import Panopticon.Library.Digits
import Panopticon.Proofs.Generated

/-! AVR instructions on bytes, and chains of them on numbers of several bytes. -/

namespace Panopticon.Proofs.Chain
open Panopticon.Library Panopticon.Library.Digits Avr WriteRegister Generated

/-- The variables the code uses beside the registers. -/
def scratch : List String := [
  "res", "C", "Z", "carry", "cf1", "cf2", "h1", "h2", "s1", "s2", "s3", "t1", "t2", "t3", "v1", "v2", "maybe_z", "N", "H",
  "V", "S"]

def minor : List String := ["h1", "h2", "s1", "s2", "s3", "t1", "t2", "t3", "v1", "v2", "N", "H", "V", "S"]

def byte (ρ : Valuation) (name : String) : Nat := ρ name none % 2 ^ 8

def flag (ρ : Valuation) (name : String) : Nat := ρ name none % 2

def isZero (n : Nat) : Nat := if n = 0 then 1 else 0

/-- The result and the two flags that later instructions depend on. -/
structure Computed (result carry equal : Nat) (before after : Valuation) : Prop where
  result : byte after "res" = result
  carry : flag after "C" = carry
  equal : flag after "Z" = equal
  kept : Keeps scratch before after

theorem Computed.step {result carry equal : Nat} {before middle after : Valuation}
    (computed : Computed result carry equal before middle) (kept : Keeps minor middle after) : Computed result carry equal before after := by
  constructor
  · rw [byte, kept "res" (by decide)]
    exact computed.result
  · rw [flag, kept "C" (by decide)]
    exact computed.carry
  · rw [flag, kept "Z" (by decide)]
    exact computed.equal
  · have inside : scratch ++ minor ⊆ scratch := by decide
    exact (computed.kept.trans kept).mono inside

/-- The result is in the register. -/
structure Written (d : String) (result carry equal : Nat) (before after : Valuation) : Prop where
  result : byte after d = result
  carry : flag after "C" = carry
  equal : flag after "Z" = equal
  kept : Keeps (d :: scratch) before after

/-- What an instruction does to its first operand and to two flags. -/
def Computes (sem : Lvalue → Rvalue → Outcome String (List Statement)) (digit carry : Nat → Nat → Nat → Nat)
    (equal : Nat → Nat → Nat → Nat → Nat) : Prop :=
  ∀ d r, d ∉ scratch → r ∉ scratch → Gives (sem (.var d none 8) (.var r none 0 8)) fun ρ =>
    Written d (digit (byte ρ d) (byte ρ r) (flag ρ "C")) (carry (byte ρ d) (byte ρ r) (flag ρ "C"))
      (equal (byte ρ d) (byte ρ r) (flag ρ "C") (flag ρ "Z")) ρ

section Step

variable {d r : String}

attribute [local simp] size_var size_constant bits_var bits_constant Avr.bit res halfRes Avr.zero Statement.sanityCheck
  Statement.typecheck Statement.typecheckCmpop Statement.typecheckBinop Statement.typecheckUnop Operation.operands
  Operation.lift Operation.result Lvalue.size Lvalue.toRvalue Statement.total run Statement.next Valuation.assign
  sets minor sumOverflow differenceOverflow

@[local simp] theorem value_flag (p : Prop) [Decidable p] : (Bits.flag (decide p)).value = if p then 1 else 0 := by
  by_cases holds : p <;> simp [holds, Bits.flag]

@[local simp] theorem bit_mod (p : Prop) [Decidable p] : (if p then 1 else 0) % 2 = if p then 1 else 0 := by
  split <;> rfl

@[local simp] theorem either (p q : Prop) [Decidable p] [Decidable q] (c : Nat) :
    (((if p then 1 else 0) &&& c % 2) % 2 ||| if q then 1 else 0) % 2 = if p ∧ c % 2 = 1 ∨ q then 1 else 0 := by
  rcases Nat.mod_two_eq_zero_or_one c with clear | set <;> by_cases p <;> by_cases q <;> simp_all

theorem moved {result carry equal : Nat} {ρ middle : Valuation} (computed : Computed result carry equal ρ middle)
    (fresh : d ∉ scratch) :
    ∃ after, run [⟨.var d none 8, .move res⟩] middle = some after ∧ Written d result carry equal ρ after := by
  have other : "C" ≠ d ∧ "Z" ≠ d := by
    constructor
    · rintro rfl
      exact fresh (by decide)
    · rintro rfl
      exact fresh (by decide)
  refine ⟨middle.assign (.var d none 8) (.ofNat 8 (middle "res" none)), by simp, ?_⟩
  constructor
  · rw [← computed.result]
    simp [byte]
  · rw [← computed.carry]
    simp [flag, other]
  · rw [← computed.equal]
    simp [flag, other]
  · intro name outside
    rw [List.mem_cons, not_or] at outside
    rw [← computed.kept name outside.2]
    simp [outside.1]

/-- The last statements of an instruction that only compares. -/
def comparison : List Statement := [
  ⟨.var "Z" none 1, .equal res Avr.zero⟩,
  ⟨.var "N" none 1, .lessUnsigned res Avr.zero⟩,
  ⟨.var "S" none 1, .exclusiveOr (Avr.bit "V") (Avr.bit "N")⟩]

theorem compared {result carry equal : Nat} {ρ middle : Valuation} (computed : Computed result carry equal ρ middle)
    (fresh : d ∉ scratch) :
    ∃ after, run comparison middle = some after ∧ Written d (byte ρ d) carry (isZero result) ρ after := by
  have names := fresh
  simp only [scratch, List.mem_cons, List.not_mem_nil, or_false, not_or] at names
  have kept : byte middle d = byte ρ d := by rw [byte, computed.kept d fresh, byte]
  refine ⟨_, rfl, ?_⟩
  constructor
  · rw [← kept]
    simp [byte, names]
  · rw [← computed.carry]
    simp [flag]
  · rw [← computed.result]
    simp [flag, byte, isZero]
    rfl
  · intro name outside
    rw [List.mem_cons, not_or] at outside
    rw [← computed.kept name outside.2]
    have other := outside.2
    simp [scratch] at other
    simp [other]

theorem checked_of_all {stmts : List Statement} (all : stmts.all (fun stmt => stmt.sanityCheck.toBool) = true) :
    ∀ stmt ∈ stmts, stmt.sanityCheck = .ok () := by
  intro stmt member
  have passes := List.all_eq_true.mp all stmt member
  cases check : stmt.sanityCheck with
  | ok value => rfl
  | error message =>
    rw [check] at passes
    cases passes

/-- An instruction that sets the result and the two flags first and stores the result last. -/
theorem gives_written (head : List Statement) {rest : List Statement} {result carry equal : Valuation → Nat}
    (fresh : d ∉ scratch)
    (checked : ∀ stmt ∈ head ++ rest ++ [⟨.var d none 8, .move res⟩], stmt.sanityCheck = .ok ())
    (known : ∀ stmt ∈ rest, sets minor stmt = true)
    (ran : ∀ ρ, ∃ middle, run head ρ = some middle ∧ Computed (result ρ) (carry ρ) (equal ρ) ρ middle) :
    Gives (.ofExcept (rreil (head ++ rest ++ [⟨.var d none 8, .move res⟩]))) fun ρ =>
      Written d (result ρ) (carry ρ) (equal ρ) ρ :=
  gives_around checked known ran (fun _ _ _ computed kept => computed.step kept) fun _ _ computed => moved computed fresh

theorem sumCarry_iff (u v c : Nat) :
    (if (u + v + c % 2) % 256 = u % 256 ∧ c % 2 = 1 ∨ (u + v + c % 2) % 256 < u % 256 then 1 else 0) =
      sumCarry 256 (u % 256) (v % 256) (c % 2) := by
  unfold sumCarry
  split <;> omega

theorem sumDigit_byte (u v c : Nat) : (u + v + c) % 256 = sumDigit 256 (u % 256) (v % 256) c := by
  simp only [sumDigit]
  omega

private theorem adc_computes : Computes adc (sumDigit 256) (sumCarry 256) fun a b c _ => isZero (sumDigit 256 a b c) := by
  intro d r fresh fresh'
  have code : adc (.var d none 8) (.var r none 0 8) = .ofExcept (rreil ([
    ⟨.var "carry" none 8, .zeroExtend 8 (Avr.bit "C")⟩,
    ⟨.var "res" none 8, .add (.var d none 0 8) (.var r none 0 8)⟩,
    ⟨.var "res" none 8, .add res (.var "carry" none 0 8)⟩,
    ⟨.var "Z" none 1, .equal res Avr.zero⟩,
    ⟨.var "N" none 1, .lessOrEqualSigned res Avr.zero⟩,
    ⟨.var "cf1" none 1, .equal res (.var d none 0 8)⟩,
    ⟨.var "cf2" none 1, .lessUnsigned res (.var d none 0 8)⟩,
    ⟨.var "cf1" none 1, .and (Avr.bit "cf1") (Avr.bit "C")⟩,
    ⟨.var "C" none 1, .inclusiveOr (Avr.bit "cf1") (Avr.bit "cf2")⟩] ++ ([
    ⟨.var "h1" none 1, .equal halfRes (.var d none 0 4)⟩,
    ⟨.var "h2" none 1, .lessUnsigned halfRes (.var d none 0 4)⟩,
    ⟨.var "h1" none 1, .and (Avr.bit "h1") (Avr.bit "H")⟩,
    ⟨.var "H" none 1, .inclusiveOr (Avr.bit "h1") (Avr.bit "h2")⟩] ++
    sumOverflow (.var d none 0 8) (.var r none 0 8) ++ [
    ⟨.var "S" none 1, .exclusiveOr (Avr.bit "N") (Avr.bit "V")⟩]) ++ [
    ⟨.var d none 8, .move res⟩])) := rfl
  have names := fresh
  have names' := fresh'
  simp only [scratch, List.mem_cons, List.not_mem_nil, or_false, not_or] at names names'
  rw [code]
  apply gives_written _ fresh
  · exact checked_of_all rfl
  · simp
  · intro ρ
    simp [names, names']
    constructor
    · simp [byte, flag, ← sumDigit_byte]
    · simp [flag, byte, ← sumCarry_iff]
    · simp [flag, byte, isZero, ← sumDigit_byte]
    · intro name other
      simp [scratch] at other
      simp [other]

private theorem add_computes : Computes add (fun a b _ => sumDigit 256 a b 0) (fun a b _ => sumCarry 256 a b 0)
    fun a b _ _ => isZero (sumDigit 256 a b 0) := by
  intro d r fresh _
  have code : add (.var d none 8) (.var r none 0 8) = .ofExcept (rreil ([
    ⟨.var "res" none 8, .add (.var d none 0 8) (.var r none 0 8)⟩,
    ⟨.var "Z" none 1, .equal res Avr.zero⟩,
    ⟨.var "N" none 1, .lessOrEqualSigned res Avr.zero⟩,
    ⟨.var "C" none 1, .lessUnsigned res (.var d none 0 8)⟩] ++ ([
    ⟨.var "H" none 1, .lessUnsigned halfRes (.var d none 0 4)⟩] ++
    sumOverflow (.var d none 0 8) (.var r none 0 8) ++ [
    ⟨.var "S" none 1, .exclusiveOr (Avr.bit "N") (Avr.bit "V")⟩]) ++ [
    ⟨.var d none 8, .move res⟩])) := rfl
  have names := fresh
  simp only [scratch, List.mem_cons, List.not_mem_nil, or_false, not_or] at names
  rw [code]
  apply gives_written _ fresh
  · exact checked_of_all rfl
  · simp
  · intro ρ
    simp [names]
    constructor
    · simp [byte, ← sumDigit_byte]
    · simp [flag, byte]
      have carry := sumCarry_iff (ρ d none) (ρ r none) 0
      simpa using carry
    · simp [flag, byte, isZero, ← sumDigit_byte]
    · intro name other
      simp [scratch] at other
      simp [other]

@[local simp] theorem value_difference (u v : Nat) :
    (Bits.ofInt 8 ((u : Int) % 256 - (v : Int) % 256)).value = differenceDigit 256 (u % 256) (v % 256) 0 := by
  simp only [Bits.ofInt, differenceDigit]
  omega

@[local simp] theorem difference_mod (a b c : Nat) : differenceDigit 256 a b c % 256 = differenceDigit 256 a b c :=
  Nat.mod_mod _ _

@[local simp] theorem difference_borrowed (u v c : Nat) :
    differenceDigit 256 (differenceDigit 256 (u % 256) (v % 256) 0) (c % 2 % 256) 0 =
      differenceDigit 256 (u % 256) (v % 256) (c % 2) := by
  simp only [differenceDigit]
  omega

@[local simp] theorem both (p : Prop) [Decidable p] (z : Nat) :
    (z % 2 &&& if p then 1 else 0) % 2 = if z % 2 = 1 ∧ p then 1 else 0 := by
  rcases Nat.mod_two_eq_zero_or_one z with clear | set <;> by_cases holds : p <;> simp_all

theorem sub_computes : Computes sub (fun a b _ => differenceDigit 256 a b 0) (fun a b _ => borrow a b 0)
    fun a b _ _ => isZero (differenceDigit 256 a b 0) := by
  intro d r fresh fresh'
  have code : sub (.var d none 8) (.var r none 0 8) = .ofExcept (rreil ([
    ⟨.var "res" none 8, .subtract (.var d none 0 8) (.var r none 0 8)⟩,
    ⟨.var "Z" none 1, .equal res Avr.zero⟩,
    ⟨.var "N" none 1, .lessOrEqualSigned res Avr.zero⟩,
    ⟨.var "C" none 1, .lessUnsigned (.var d none 0 8) (.var r none 0 8)⟩] ++ [
    ⟨.var "H" none 1, .lessUnsigned (.var d none 0 4) (.var r none 0 4)⟩,
    ⟨.var "V" none 1, .lessSigned (.var d none 0 8) (.var r none 0 8)⟩,
    ⟨.var "S" none 1, .exclusiveOr (Avr.bit "N") (Avr.bit "V")⟩] ++ [
    ⟨.var d none 8, .move res⟩])) := rfl
  have names := fresh
  have names' := fresh'
  simp only [scratch, List.mem_cons, List.not_mem_nil, or_false, not_or] at names names'
  rw [code]
  apply gives_written _ fresh
  · exact checked_of_all rfl
  · simp
  · intro ρ
    simp [names, names']
    constructor
    · simp [byte]
    · simp [flag, byte, borrow]
    · simp [flag, byte, isZero]
      rfl
    · intro name other
      simp [scratch] at other
      simp [other]

theorem sbc_computes : Computes sbc (differenceDigit 256) (fun a b _ => borrow a b 0)
    fun a b c z => if z = 1 ∧ differenceDigit 256 a b c = 0 then 1 else 0 := by
  intro d r fresh fresh'
  have code : sbc (.var d none 8) (.var r none 0 8) = .ofExcept (rreil ([
    ⟨.var "carry" none 8, .zeroExtend 8 (Avr.bit "C")⟩,
    ⟨.var "res" none 8, .subtract (.var d none 0 8) (.var r none 0 8)⟩,
    ⟨.var "res" none 8, .subtract res (.var "carry" none 0 8)⟩,
    ⟨.var "maybe_z" none 1, .equal res Avr.zero⟩,
    ⟨.var "Z" none 1, .and (Avr.bit "Z") (Avr.bit "maybe_z")⟩,
    ⟨.var "N" none 1, .lessOrEqualSigned res Avr.zero⟩,
    ⟨.var "C" none 1, .lessUnsigned (.var d none 0 8) (.var r none 0 8)⟩] ++ [
    ⟨.var "H" none 1, .lessUnsigned (.var d none 0 4) (.var r none 0 4)⟩,
    ⟨.var "V" none 1, .lessSigned (.var d none 0 8) (.var r none 0 8)⟩,
    ⟨.var "S" none 1, .exclusiveOr (Avr.bit "N") (Avr.bit "V")⟩] ++ [
    ⟨.var d none 8, .move res⟩])) := rfl
  have names := fresh
  have names' := fresh'
  simp only [scratch, List.mem_cons, List.not_mem_nil, or_false, not_or] at names names'
  rw [code]
  apply gives_written _ fresh
  · exact checked_of_all rfl
  · simp
  · intro ρ
    simp [names, names']
    constructor
    · simp [byte, flag]
    · simp [flag, byte, borrow]
    · simp [flag, byte]
      rfl
    · intro name other
      simp [scratch] at other
      simp [other]

theorem gives_compared (head : List Statement) {rest : List Statement} {result carry : Valuation → Nat} (fresh : d ∉ scratch)
    (checked : ∀ stmt ∈ head ++ rest ++ comparison, stmt.sanityCheck = .ok ())
    (known : ∀ stmt ∈ rest, sets minor stmt = true)
    (ran : ∀ ρ, ∃ middle, run head ρ = some middle ∧ Computed (result ρ) (carry ρ) (flag ρ "Z") ρ middle) :
    Gives (.ofExcept (rreil (head ++ rest ++ comparison))) fun ρ => Written d (byte ρ d) (carry ρ) (isZero (result ρ)) ρ :=
  gives_around checked known ran (fun _ _ _ computed kept => computed.step kept) fun _ _ computed => compared computed fresh

private theorem compare_borrow (u v : Nat) : (if u % 256 < differenceDigit 256 (u % 256) (v % 256) 0 then 1 else 0) =
    borrow (u % 256) (v % 256) 0 := by
  have small : v % 256 < 256 := Nat.mod_lt _ (by omega)
  have wraps : u % 256 < (u % 256 + 256 - v % 256 - 0) % 256 ↔ u % 256 < v % 256 + 0 := by omega
  simp only [differenceDigit, borrow, wraps]

theorem cp_computes : Computes cp (fun a _ _ => a) (fun a b _ => borrow a b 0)
    fun a b _ _ => isZero (differenceDigit 256 a b 0) := by
  intro d r fresh fresh'
  have code : cp (.var d none 8) (.var r none 0 8) = .ofExcept (rreil ([
    ⟨.var "res" none 8, .subtract (.var d none 0 8) (.var r none 0 8)⟩,
    ⟨.var "C" none 1, .lessUnsigned (.var d none 0 8) res⟩] ++ ([
    ⟨.var "H" none 1, .lessUnsigned (.var d none 0 4) halfRes⟩] ++
    differenceOverflow (.var d none 0 8) (.var r none 0 8)) ++ comparison)) := rfl
  have names := fresh
  simp only [scratch, List.mem_cons, List.not_mem_nil, or_false, not_or] at names
  rw [code]
  apply gives_compared _ fresh
  · exact checked_of_all rfl
  · simp
  · intro ρ
    simp [names]
    constructor
    · simp [byte]
    · simp [flag, byte, ← compare_borrow]
    · simp [flag]
    · intro name other
      simp [scratch] at other
      simp [other]

theorem cpc_computes : Computes cpc (fun a _ _ => a)
    (fun a b c => if differenceDigit 256 a b c = a ∧ c = 1 ∨ differenceDigit 256 a b c < a then 1 else 0)
    fun a b c _ => isZero (differenceDigit 256 a b c) := by
  intro d r fresh fresh'
  have code : cpc (.var d none 8) (.var r none 0 8) = .ofExcept (rreil ([
    ⟨.var "carry" none 8, .zeroExtend 8 (Avr.bit "C")⟩,
    ⟨.var "res" none 8, .subtract (.var d none 0 8) (.var r none 0 8)⟩,
    ⟨.var "res" none 8, .subtract res (.var "carry" none 0 8)⟩,
    ⟨.var "cf1" none 1, .equal res (.var d none 0 8)⟩,
    ⟨.var "cf2" none 1, .lessUnsigned res (.var d none 0 8)⟩,
    ⟨.var "cf1" none 1, .and (Avr.bit "cf1") (Avr.bit "C")⟩,
    ⟨.var "C" none 1, .inclusiveOr (Avr.bit "cf1") (Avr.bit "cf2")⟩] ++ ([
    ⟨.var "h1" none 1, .equal halfRes (.var d none 0 4)⟩,
    ⟨.var "h2" none 1, .lessUnsigned halfRes (.var d none 0 4)⟩,
    ⟨.var "h1" none 1, .and (Avr.bit "h1") (Avr.bit "H")⟩,
    ⟨.var "H" none 1, .inclusiveOr (Avr.bit "h1") (Avr.bit "h2")⟩] ++
    differenceOverflow (.var d none 0 8) (.var r none 0 8)) ++ comparison)) := rfl
  have names := fresh
  have names' := fresh'
  simp only [scratch, List.mem_cons, List.not_mem_nil, or_false, not_or] at names names'
  rw [code]
  apply gives_compared _ fresh
  · exact checked_of_all rfl
  · simp
  · intro ρ
    simp [names, names']
    constructor
    · simp [byte, flag]
    · simp [flag, byte]
      rfl
    · simp [flag]
    · intro name other
      simp [scratch] at other
      simp [other]

end Step

def name (r : UInt64) : String := registers.getD r.toNat ""

def register (ρ : Valuation) (r : UInt64) : Nat := byte ρ (name r)

/-- The number in these registers, the low byte first. -/
def number (ρ : Valuation) (rs : List UInt64) : Nat := Nat.ofDigits 256 (rs.map (register ρ))

/-- An instruction on the lowest pair of registers and another on each next pair. -/
def chain (first others : Lvalue → Rvalue → Outcome String (List Statement)) :
    List (UInt64 × UInt64) → Outcome String (List Statement)
  | [] => .returns []
  | (d, r) :: rest => do
    let head ← binary first d r
    let later ← chain others others rest
    .returns (head ++ later)

def settle (carry : Nat → Nat → Nat → Nat) (equal : Nat → Nat → Nat → Nat → Nat) :
    Nat → Nat → List (Nat × Nat) → Nat
  | _, z, [] => z
  | c, z, (a, b) :: rest => settle carry equal (carry a b c) (equal a b c z) rest

structure Ran (targets : List UInt64) (digits : List Nat) (carry equal : Nat) (before after : Valuation) : Prop where
  digits : targets.map (register after) = digits
  carry : flag after "C" = carry
  equal : flag after "Z" = equal
  kept : Keeps (targets.map name ++ scratch) before after

section Registers

variable {r s : UInt64}

theorem known_name (small : r < 32) : registers[r.toNat]? = some (name r) := by
  have inside : r.toNat < registers.length := UInt64.lt_iff_toNat_lt.mp small
  rw [name, List.getD_eq_getElem?_getD, List.getElem?_eq_getElem inside, Option.getD_some]

theorem resolv_name (small : r < 32) : resolv r = .returns (.var (name r) none 8) := by
  rw [resolv, known_name small]

theorem name_fresh (small : r < 32) : name r ∉ scratch := by
  have apart : ∀ x ∈ registers, x ∉ scratch := by decide
  exact apart _ (List.mem_of_getElem? (known_name small))

theorem name_inj (small : r < 32) (small' : s < 32) (same : name r = name s) : r = s := by
  have distinct : registers.Nodup := by decide
  have inside : r.toNat < registers.length := UInt64.lt_iff_toNat_lt.mp small
  have index : r.toNat = s.toNat :=
    (List.getElem?_inj inside distinct).mp (by rw [known_name small, known_name small', same])
  exact UInt64.toNat_inj.mp index

private theorem binary_computes {sem : Lvalue → Rvalue → Outcome String (List Statement)} (small : r < 32) (small' : s < 32) :
    binary sem r s = sem (.var (name r) none 8) (.var (name s) none 0 8) := by
  simp [binary, resolv_name small, resolv_name small', Lvalue.toRvalue]

end Registers

/-- The pairs of bytes in these pairs of registers. -/
def bytes (ρ : Valuation) (pairs : List (UInt64 × UInt64)) : List (Nat × Nat) :=
  pairs.map fun pair => (register ρ pair.1, register ρ pair.2)

/-- Pairs of different registers. -/
structure Apart (pairs : List (UInt64 × UInt64)) : Prop where
  known : ∀ pair ∈ pairs, pair.1 < 32 ∧ pair.2 < 32
  distinct : (pairs.map Prod.fst ++ pairs.map Prod.snd).Nodup

section Chain

variable {pairs rest : List (UInt64 × UInt64)} {d r : UInt64}

theorem Apart.tail (apart : Apart ((d, r) :: rest)) : Apart rest := by
  constructor
  · exact fun pair member => apart.known pair (List.mem_cons_of_mem _ member)
  · have distinct := apart.distinct
    simp only [List.map_cons, List.nodup_append, List.nodup_cons, List.mem_cons] at distinct ⊢
    exact ⟨distinct.1.2, distinct.2.1.2, fun x member y member' => distinct.2.2 x (.inr member) y (.inr member')⟩

theorem Apart.head (apart : Apart ((d, r) :: rest)) : ∀ pair ∈ rest, pair.1 ≠ d ∧ pair.2 ≠ d := by
  intro pair member
  have distinct := apart.distinct
  simp only [List.map_cons, List.nodup_append, List.nodup_cons, List.mem_cons] at distinct
  constructor
  · rintro rfl
    exact distinct.1.1 (List.mem_map_of_mem member)
  · rintro rfl
    exact distinct.2.2 _ (.inl rfl) _ (.inr (List.mem_map_of_mem member)) rfl

theorem Written.other_register {result carry equal : Nat} {before after : Valuation}
    (written : Written (name d) result carry equal before after) (small : d < 32) (small' : r < 32) (other : r ≠ d) :
    register after r = register before r := by
  have outside : name r ∉ name d :: scratch := by
    rw [List.mem_cons, not_or]
    exact ⟨fun same => other (name_inj small' small same), name_fresh small'⟩
  rw [register, byte, written.kept _ outside]
  rfl

theorem Written.other_bytes {result carry equal : Nat} {before after : Valuation} (apart : Apart ((d, r) :: rest))
    (written : Written (name d) result carry equal before after) : bytes after rest = bytes before rest := by
  have small := (apart.known _ (List.mem_cons_self ..)).1
  apply List.map_congr_left
  intro pair member
  have known := apart.tail.known pair member
  have other := apart.head pair member
  rw [written.other_register small known.1 other.1, written.other_register small known.2 other.2]

theorem Written.cons {result carry equal carry' equal' : Nat} {digits : List Nat} {before middle after : Valuation}
    (apart : Apart ((d, r) :: rest)) (written : Written (name d) result carry equal before middle)
    (ran : Ran (rest.map Prod.fst) digits carry' equal' middle after) :
    Ran (((d, r) :: rest).map Prod.fst) (result :: digits) carry' equal' before after := by
  have small := (apart.known _ (List.mem_cons_self ..)).1
  have outside : name d ∉ (rest.map Prod.fst).map name ++ scratch := by
    rw [List.mem_append, not_or]
    refine ⟨fun member => ?_, name_fresh small⟩
    obtain ⟨x, target, same⟩ := List.mem_map.mp member
    obtain ⟨pair, inside, rfl⟩ := List.mem_map.mp target
    exact (apart.head pair inside).1 (name_inj (apart.tail.known pair inside).1 small same)
  have first : register after d = result := by
    rw [← written.result, register, byte, ran.kept _ outside, byte]
  constructor
  · rw [List.map_cons, List.map_cons, ran.digits, first]
  · exact ran.carry
  · exact ran.equal
  · refine (written.kept.trans ran.kept).mono ?_
    intro x member
    simp only [List.map_cons, List.cons_append, List.mem_cons, List.mem_append] at member ⊢
    tauto

variable {first others : Lvalue → Rvalue → Outcome String (List Statement)}
  {digit digit' carry carry' : Nat → Nat → Nat → Nat} {equal equal' : Nat → Nat → Nat → Nat → Nat}

theorem chain_cons (apart : Apart ((d, r) :: rest)) (computes : Computes first digit carry equal)
    (later : Gives (chain others others rest) fun ρ =>
      Ran (rest.map Prod.fst) (ripple digit' carry' (flag ρ "C") (bytes ρ rest)).1
        (ripple digit' carry' (flag ρ "C") (bytes ρ rest)).2
        (settle carry' equal' (flag ρ "C") (flag ρ "Z") (bytes ρ rest)) ρ) :
    Gives (chain first others ((d, r) :: rest)) fun ρ =>
      let a := register ρ d
      let b := register ρ r
      let c := flag ρ "C"
      Ran (((d, r) :: rest).map Prod.fst) (digit a b c :: (ripple digit' carry' (carry a b c) (bytes ρ rest)).1)
        (ripple digit' carry' (carry a b c) (bytes ρ rest)).2
        (settle carry' equal' (carry a b c) (equal a b c (flag ρ "Z")) (bytes ρ rest)) ρ := by
  have small := apart.known _ (List.mem_cons_self ..)
  obtain ⟨head, generated, leads⟩ := computes (name d) (name r) (name_fresh small.1) (name_fresh small.2)
  obtain ⟨stmts, generated', leads'⟩ := later
  refine ⟨head ++ stmts, ?_, fun ρ => (leads ρ).append fun middle written => (leads' middle).imp fun after ran => ?_⟩
  · rw [chain, binary_computes small.1 small.2, generated, generated']
    rfl
  · simp only [written.carry, written.equal, written.other_bytes apart] at ran
    exact written.cons apart ran

theorem chain_runs (computes : Computes others digit carry equal) (apart : Apart pairs) :
    Gives (chain others others pairs) fun ρ =>
      Ran (pairs.map Prod.fst) (ripple digit carry (flag ρ "C") (bytes ρ pairs)).1
        (ripple digit carry (flag ρ "C") (bytes ρ pairs)).2 (settle carry equal (flag ρ "C") (flag ρ "Z") (bytes ρ pairs)) ρ := by
  induction pairs with
  | nil =>
    refine ⟨[], rfl, fun ρ => Leads.nil ?_⟩
    exact ⟨rfl, rfl, rfl, Keeps.refl _ ρ⟩
  | cons pair rest ih => exact chain_cons apart computes (ih apart.tail)

theorem number_left (ρ : Valuation) (pairs : List (UInt64 × UInt64)) :
    number ρ (pairs.map Prod.fst) = left 256 (bytes ρ pairs) := by
  simp [number, left, bytes, Function.comp_def]

theorem number_right (ρ : Valuation) (pairs : List (UInt64 × UInt64)) :
    number ρ (pairs.map Prod.snd) = right 256 (bytes ρ pairs) := by
  simp [number, right, bytes, Function.comp_def]

theorem Ran.kept_right {digits : List Nat} {c z : Nat} {before after : Valuation} (apart : Apart pairs)
    (ran : Ran (pairs.map Prod.fst) digits c z before after) : ∀ r ∈ pairs.map Prod.snd, register after r = register before r := by
  intro r member
  obtain ⟨pair, inside, rfl⟩ := List.mem_map.mp member
  have small := (apart.known pair inside).2
  have outside : name pair.2 ∉ (pairs.map Prod.fst).map name ++ scratch := by
    rw [List.mem_append, not_or]
    refine ⟨fun target => ?_, name_fresh small⟩
    obtain ⟨x, target, same⟩ := List.mem_map.mp target
    obtain ⟨other, inside', rfl⟩ := List.mem_map.mp target
    have equal := name_inj (apart.known other inside').1 small same
    exact (List.nodup_append.mp apart.distinct).2.2 _ target _ member equal
  rw [register, byte, ran.kept _ outside, register, byte]

/-- Adding register by register adds the numbers. -/
theorem addition_wraps (filled : pairs ≠ []) (apart : Apart pairs) : Gives (chain Avr.add Avr.adc pairs) fun ρ after =>
    let a := number ρ (pairs.map Prod.fst)
    let b := number ρ (pairs.map Prod.snd)
    number after (pairs.map Prod.fst) = (a + b) % 256 ^ pairs.length ∧
      (∀ r ∈ pairs.map Prod.snd, register after r = register ρ r) ∧
      flag after "C" = (a + b) / 256 ^ pairs.length := by
  cases pairs with
  | nil => exact absurd rfl filled
  | cons pair rest =>
    obtain ⟨stmts, generated, leads⟩ := chain_cons apart add_computes (chain_runs adc_computes apart.tail)
    refine ⟨stmts, generated, fun ρ => (leads ρ).imp fun after ran => ?_⟩
    have sum := @sum_eq 256 0 (bytes ρ (pair :: rest)) (by omega)
    rw [← number_left, ← number_right, bytes, List.length_map, add_zero] at sum
    refine ⟨?_, ran.kept_right apart, ran.carry.trans sum.2⟩
    rw [number, ran.digits]
    exact sum.1

/-- Two numbers of two bytes. -/
theorem addition_wraps_two : Gives (chain Avr.add Avr.adc [(0, 2), (1, 3)]) fun ρ after =>
    let a := number ρ [0, 1]
    let b := number ρ [2, 3]
    number after [0, 1] = (a + b) % 256 ^ 2 ∧ (∀ r ∈ [2, 3], register after r = register ρ r) ∧
      flag after "C" = (a + b) / 256 ^ 2 :=
  @addition_wraps [(0, 2), (1, 3)] (by simp) ⟨by simp, by simp⟩

end Chain

end Panopticon.Proofs.Chain
