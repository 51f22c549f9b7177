import Panopticon.Proofs.WriteRegister

/-! The code of the amd64 additions, run from any register values, leaves the sum in the
destination and the arithmetic flags of the sum. Each helper is run on its own: what it
sets, and the variables it may change. -/

namespace Panopticon.Proofs.Addition
open Panopticon.Library Panopticon.Library.Word WriteRegister
open Amd64.Semantic (setAdjFlag setParityFlag setCarryFlag setOverflowFlag)

/-- The bits of the low byte added without carry, and one, tell whether their number is even. -/
theorem parity_eq (r : Nat) :
    ((((((((r % 2 ^^^ r % 256 / 2 % 2) % 2 ^^^ r % 256 / 4 % 2) % 2 ^^^ r % 256 / 8 % 2) % 2 ^^^
      r % 256 / 16 % 2) % 2 ^^^ r % 256 / 32 % 2) % 2 ^^^ r % 256 / 64 % 2) % 2 ^^^ r % 256 / 128 % 2) % 2 ^^^ 1) % 2 =
      (decide (Even ((List.range 8).countP fun i => r.testBit i))).toNat := by
  have low : r % 2 = (r.testBit 0).toNat := by rw [Nat.toNat_testBit, pow_zero, Nat.div_one]
  have bit : ∀ i < 8, r % 256 / 2 ^ i % 2 = (r.testBit i).toNat := by
    intro i below
    rw [← Nat.toNat_testBit, show 256 = 2 ^ 8 by rfl, Nat.testBit_mod_two_pow]
    simp [below]
  have range : List.range 8 = [0, 1, 2, 3, 4, 5, 6, 7] := rfl
  have bit1 := bit 1 (by decide)
  have bit2 := bit 2 (by decide)
  have bit3 := bit 3 (by decide)
  have bit4 := bit 4 (by decide)
  have bit5 := bit 5 (by decide)
  have bit6 := bit 6 (by decide)
  have bit7 := bit 7 (by decide)
  norm_num at bit1 bit2 bit3 bit4 bit5 bit6 bit7
  rw [low, bit1, bit2, bit3, bit4, bit5, bit6, bit7, range]
  simp only [List.countP_cons, List.countP_nil]
  generalize r.testBit 0 = b0, r.testBit 1 = b1, r.testBit 2 = b2, r.testBit 3 = b3, r.testBit 4 = b4,
    r.testBit 5 = b5, r.testBit 6 = b6, r.testBit 7 = b7
  revert b0 b1 b2 b3 b4 b5 b6 b7
  decide

section Flags

variable {ρ : Valuation} {n : Nat} {x y : String}

attribute [local simp] Amd64.Semantic.bit Statement.sanityCheck Statement.typecheck Statement.typecheckCmpop
  Statement.typecheckBinop Statement.typecheckUnop Operation.operands Operation.lift Operation.result Rvalue.size
  Lvalue.size Lvalue.toRvalue Rvalue.extract Lvalue.extract Rvalue.bits Rvalue.denote run Statement.next
  Valuation.assign Bits.flag

theorem setAdjFlag_emits (nibble : 4 ≤ n) : Emits (setAdjFlag (.var "res" none n) (.var x none 0 n)) ρ fun after =>
    after "AF" none = (decide (ρ "res" none % 16 < ρ x none % 16)).toNat ∧ Keeps ["AF", "af1"] ρ after := by
  have low : (Lvalue.var "res" none n).extract 4 0 = .ok (.var "res" none 0 4) := by simp [nibble]
  have lowA : (Rvalue.var x none 0 n).extract 4 0 = .ok (.var x none 0 4) := by simp [nibble]
  simp only [setAdjFlag, low, lowA, Except.toOption, Outcome.unwrap, Outcome.returns_bind]
  apply emits_rreil
  · simp [pure, Except.pure, bind, Except.bind]
  simp
  constructor
  · by_cases less : ρ "res" none % 16 < ρ x none % 16 <;> simp [less]
  · intro name fresh
    simp at fresh
    simp [fresh]

theorem setCarryFlag_emits (positive : n ≠ 0) (fresh : x ∉ temporaries) :
    Emits (setCarryFlag (.var "res" none n) (.var x none 0 n)) ρ fun after =>
      after "CF" none = (decide (ρ "res" none % 2 ^ n < ρ x none % 2 ^ n) ||
        decide (ρ "res" none % 2 ^ n = ρ x none % 2 ^ n) && decide (ρ "CF" none % 2 = 1)).toNat ∧
      Keeps ["CF", "cf1", "cf2"] ρ after := by
  simp [temporaries] at fresh
  rw [setCarryFlag]
  apply emits_rreil
  · simp [pure, Except.pure, bind, Except.bind, positive]
  simp [fresh]
  constructor
  · by_cases equal : ρ "res" none % 2 ^ n = ρ x none % 2 ^ n <;>
      by_cases less : ρ "res" none % 2 ^ n < ρ x none % 2 ^ n <;>
      rcases Nat.mod_two_eq_zero_or_one (ρ "CF" none) with clear | set <;> simp [*]
  · intro name fresh
    simp at fresh
    simp [fresh]

private theorem setOverflowFlag_emits (positive : n ≠ 0) (width : n ≤ 64) (fresh : x ∉ temporaries) :
    Emits (setOverflowFlag (.var "res" none n) (.var x none 0 n) (.var y none 0 n) n) ρ fun after =>
      after "OF" none = (!((ρ x none).testBit (n - 1) ^^ (ρ y none).testBit (n - 1)) &&
        ((ρ x none).testBit (n - 1) ^^ (ρ "res" none).testBit (n - 1))).toNat ∧
      Keeps ["OF", "of1", "of2"] ρ after := by
  simp [temporaries] at fresh
  rw [setOverflowFlag]
  apply emits_rreil
  · simp [pure, Except.pure, bind, Except.bind, positive]
  simp [fresh]
  constructor
  · have inside : n - 1 < n := by omega
    have word : n - 1 < 64 := by omega
    simp only [← Nat.toNat_testBit, Nat.testBit_mod_two_pow, Nat.testBit_xor,
      show 18446744073709551615 = 2 ^ 64 - 1 by rfl, Nat.testBit_two_pow_sub_one, inside, word, decide_true, Bool.true_and]
    cases (ρ x none).testBit (n - 1) <;> cases (ρ y none).testBit (n - 1) <;>
      cases (ρ "res" none).testBit (n - 1) <;> rfl
  · intro name fresh
    simp at fresh
    simp [fresh]

theorem setParityFlag_emits (byte : 8 ≤ n) : Emits (setParityFlag (.var "res" none n)) ρ fun after =>
    after "PF" none = (decide (Even ((List.range 8).countP fun i => (ρ "res" none).testBit i))).toNat ∧
    Keeps ["PF", "half_res"] ρ after := by
  have low : (Lvalue.var "res" none n).extract 8 0 = .ok (.var "res" none 0 8) := by simp [byte]
  simp only [setParityFlag, low, Except.toOption, Outcome.unwrap, Outcome.returns_bind]
  apply emits_rreil
  · simp [pure, Except.pure, bind, Except.bind]
  simp [-Nat.xor_mod_two_eq]
  constructor
  · exact parity_eq (ρ "res" none)
  · intro name fresh
    simp at fresh
    simp [fresh]

end Flags

/-- The carry out of `n` bits, from the result and one operand. -/
theorem carry_iff {n a b c : Nat} (smallA : a < 2 ^ n) (smallB : b < 2 ^ n) (bit : c ≤ 1) :
    (a + b + c) % 2 ^ n < a ∨ (a + b + c) % 2 ^ n = a ∧ c = 1 ↔ 2 ^ n ≤ a + b + c := by
  rcases Nat.lt_or_ge (a + b + c) (2 ^ n) with fits | carries
  · rw [Nat.mod_eq_of_lt fits]
    omega
  · rw [Nat.mod_eq_sub_mod carries, Nat.mod_eq_of_lt (by omega)]
    omega

theorem testBit_top {n a : Nat} (positive : n ≠ 0) (small : a < 2 ^ n) : a.testBit (n - 1) = decide (2 ^ (n - 1) ≤ a) := by
  have power : 2 ^ n = 2 ^ (n - 1) * 2 := by rw [← pow_succ, Nat.sub_add_cancel (by omega)]
  rw [power] at small
  have below := Nat.div_lt_of_lt_mul small
  have bit : 2 ^ (n - 1) ≤ a ↔ 1 ≤ a / 2 ^ (n - 1) := (Nat.one_le_div_iff (by positivity)).symm
  rw [Nat.testBit_eq_decide_div_mod_eq, decide_eq_decide, bit]
  generalize a / 2 ^ (n - 1) = top at below
  omega

theorem twos_eq {n v : Nat} (positive : n ≠ 0) (small : v < 2 ^ n) :
    twos n v = if 2 ^ (n - 1) ≤ v then (v : Int) - 2 ^ n else v := by
  split
  next negative => exact twos_of_le (by omega) negative small
  next nonnegative => exact twos_of_lt (by omega) (by omega)

theorem overflow_eq {n a b c : Nat} (positive : n ≠ 0) (smallA : a < 2 ^ n) (smallB : b < 2 ^ n) (bit : c ≤ 1) :
    (!(a.testBit (n - 1) ^^ b.testBit (n - 1)) && (a.testBit (n - 1) ^^ ((a + b + c) % 2 ^ n).testBit (n - 1))) =
      decide ¬(-2 ^ (n - 1) ≤ twos n a + twos n b + c ∧ twos n a + twos n b + c < 2 ^ (n - 1)) := by
  have power : 2 ^ n = 2 ^ (n - 1) * 2 := by rw [← pow_succ, Nat.sub_add_cancel (by omega)]
  have powerInt : (2 : Int) ^ n = 2 ^ (n - 1) * 2 := by exact_mod_cast power
  have half : ((2 ^ (n - 1) : Nat) : Int) = 2 ^ (n - 1) := by norm_cast
  have rest : (a + b + c) % 2 ^ n = if 2 ^ n ≤ a + b + c then a + b + c - 2 ^ n else a + b + c := by
    split
    next carries => rw [Nat.mod_eq_sub_mod carries, Nat.mod_eq_of_lt (by omega)]
    next fits => exact Nat.mod_eq_of_lt (by omega)
  rw [testBit_top positive smallA, testBit_top positive smallB, testBit_top positive (Nat.mod_lt _ (by positivity)),
    twos_eq positive smallA, twos_eq positive smallB, rest, powerInt, ← half]
  rw [power] at smallA smallB ⊢
  generalize 2 ^ (n - 1) = p at *
  rw [Bool.eq_iff_iff]
  rcases Nat.lt_or_ge a p with posA | negA <;> rcases Nat.lt_or_ge b p with posB | negB <;>
    rcases Nat.lt_or_ge (a + b + c) (p * 2) with fits | carries
  all_goals
    simp only [Nat.not_le.mpr, *]
    simp
    omega

def operand (reg : Amd64.Register) : Rvalue := .var reg.name none 0 reg.width

def value (ρ : Valuation) (reg : Amd64.Register) : Nat := ρ reg.name none % 2 ^ reg.width

/-- The destination holds the sum of `a`, `b` and `c`, and the flags are those of the sum. -/
structure Adds (n a b c : Nat) (dest : Rvalue) (after : Valuation) : Prop where
  sum : dest.denote after = some (.ofNat n (a + b + c))
  carry : (Rvalue.var "CF" none 0 1).denote after = some (.flag (2 ^ n ≤ a + b + c))
  overflow : (Rvalue.var "OF" none 0 1).denote after =
    some (.flag ¬(-2 ^ (n - 1) ≤ twos n a + twos n b + c ∧ twos n a + twos n b + c < 2 ^ (n - 1)))
  zero : (Rvalue.var "ZF" none 0 1).denote after = some (.flag ((a + b + c) % 2 ^ n = 0))
  sign : (Rvalue.var "SF" none 0 1).denote after = some (.flag (2 ^ (n - 1) ≤ (a + b + c) % 2 ^ n))
  parity : (Rvalue.var "PF" none 0 1).denote after =
    some (.flag (Even ((List.range 8).countP fun i => (a + b + c).testBit i)))
  adjust : (Rvalue.var "AF" none 0 1).denote after = some (.flag (16 ≤ a % 16 + b % 16 + c))

theorem signExtend_same {n : Nat} {a b : Rvalue} (positive : n ≠ 0) (sizeA : a.size = some n) (sizeB : b.size = some n) :
    Amd64.Semantic.signExtend a b = .returns (a, b, n, []) := by
  have same : ∀ v : Rvalue, v.size = some n → Amd64.Semantic.extended v n = v := by
    intro v size
    cases v <;> simp_all [Amd64.Semantic.extended, Rvalue.size]
  simp [Amd64.Semantic.signExtend, Amd64.Semantic.extend, sizeA, sizeB, same, positive, Outcome.ofExcept]

theorem signed_lt_zero {n : Nat} (positive : n ≠ 0) (v : Nat) :
    (Bits.ofNat n v).signed < 0 ↔ 2 ^ (n - 1) ≤ v % 2 ^ n := by
  have small : v % 2 ^ n < 2 ^ n := Nat.mod_lt _ (by positivity)
  have upper : ((v % 2 ^ n : Nat) : Int) < 2 ^ n := by exact_mod_cast small
  rw [Bits.signed, Bits.size_ofNat, Bits.value_ofNat]
  rcases Nat.lt_or_ge (v % 2 ^ n) (2 ^ (n - 1)) with below | above
  · rw [twos_of_lt (by omega) below]
    omega
  · rw [twos_of_le (by omega) above small]
    omega

section Sum

variable {ρ : Valuation} {n : Nat} {x y : String}

attribute [local simp] Amd64.Semantic.bit Statement.sanityCheck Statement.typecheck Statement.typecheckCmpop
  Statement.typecheckBinop Statement.typecheckUnop Operation.operands Operation.lift Operation.result Rvalue.size
  Lvalue.size Lvalue.toRvalue Rvalue.bits Rvalue.denote run Statement.next Valuation.assign Bits.flag

/-- What the statements before the flag helpers leave. -/
structure Summed (n a b c : Nat) (after : Valuation) : Prop where
  sum : after "res" none = (a + b + c) % 2 ^ n
  zero : after "ZF" none = (decide ((a + b + c) % 2 ^ n = 0)).toNat
  sign : after "SF" none = (decide (2 ^ (n - 1) ≤ (a + b + c) % 2 ^ n)).toNat

theorem wrapped (a b c m : Nat) : (a % m + b % m + c) % m = (a + b + c) % m := by
  rw [Nat.add_mod, ← Nat.add_mod a b, ← Nat.add_mod]

private theorem addSum_emits (positive : n ≠ 0) (freshX : x ∉ temporaries) :
    Emits (.ofExcept (rreil [
      ⟨.var "res" none n, .add (.var x none 0 n) (.var y none 0 n)⟩,
      ⟨.var "SF" none 1, .lessSigned (.var "res" none 0 n) (.constant 0 n)⟩,
      ⟨.var "ZF" none 1, .equal (.var "res" none 0 n) (.constant 0 n)⟩,
      ⟨.var "CF" none 1, .lessUnsigned (.var "res" none 0 n) (.var x none 0 n)⟩])) ρ fun after =>
    Summed n (ρ x none % 2 ^ n) (ρ y none % 2 ^ n) 0 after ∧
    after "CF" none = (decide (2 ^ n ≤ ρ x none % 2 ^ n + ρ y none % 2 ^ n)).toNat ∧
    Keeps ["res", "SF", "ZF", "CF"] ρ after := by
  have carries := carry_iff (n := n) (Nat.mod_lt (ρ x none) (by positivity)) (Nat.mod_lt (ρ y none) (by positivity))
    (Nat.zero_le 1)
  simp [temporaries] at freshX
  apply emits_rreil
  · simp [pure, Except.pure, bind, Except.bind, positive]
  simp [freshX]
  refine ⟨⟨?_, ?_, ?_⟩, ?_, ?_⟩
  · simp
  · by_cases zero : (ρ x none + ρ y none) % 2 ^ n = 0 <;> simp [zero]
  · by_cases negative : 2 ^ (n - 1) ≤ (ρ x none + ρ y none) % 2 ^ n <;> simp [signed_lt_zero positive, negative]
  · simp at carries
    by_cases carry : 2 ^ n ≤ ρ x none % 2 ^ n + ρ y none % 2 ^ n <;> simp [carries, carry]
  · intro name fresh
    simp at fresh
    simp [fresh]

private theorem adcSum_emits (nibble : 4 ≤ n) (freshX : x ∉ temporaries) :
    Emits (.ofExcept (rreil [
      ⟨.var "res" none n, .add (.var x none 0 n) (.var y none 0 n)⟩,
      ⟨.var "cf" none n, .zeroExtend n (Amd64.Semantic.bit "CF" 0)⟩,
      ⟨.var "res" none n, .add (.var "res" none 0 n) (.var "cf" none 0 n)⟩,
      ⟨.var "SF" none 1, .lessSigned (.var "res" none 0 n) (.constant 0 n)⟩,
      ⟨.var "ZF" none 1, .equal (.var "res" none 0 n) (.constant 0 n)⟩,
      ⟨.var "af1" none 1, .equal (.var "res" none 0 4) (.var x none 0 4)⟩,
      ⟨.var "af2" none 1, .lessUnsigned (.var "res" none 0 4) (.var x none 0 4)⟩,
      ⟨.var "af1" none 1, .and (Amd64.Semantic.bit "af1" 0) (Amd64.Semantic.bit "CF" 0)⟩,
      ⟨.var "AF" none 1, .inclusiveOr (Amd64.Semantic.bit "af1" 0) (Amd64.Semantic.bit "af2" 0)⟩])) ρ fun after =>
    Summed n (ρ x none % 2 ^ n) (ρ y none % 2 ^ n) (ρ "CF" none % 2) after ∧
    after "AF" none = (decide (16 ≤ ρ x none % 16 + ρ y none % 16 + ρ "CF" none % 2)).toNat ∧
    Keeps ["res", "cf", "SF", "ZF", "af1", "af2", "AF"] ρ after := by
  have positive : n ≠ 0 := by omega
  have carries := carry_iff (n := 4) (Nat.mod_lt (ρ x none) (by positivity)) (Nat.mod_lt (ρ y none) (by positivity))
    (show ρ "CF" none % 2 ≤ 1 by omega)
  simp [temporaries] at freshX
  apply emits_rreil
  · simp [pure, Except.pure, bind, Except.bind, positive]
  simp [freshX]
  refine ⟨⟨?_, ?_, ?_⟩, ?_, ?_⟩
  · simp [wrapped]
  · by_cases zero : (ρ x none + ρ y none + ρ "CF" none % 2) % 2 ^ n = 0 <;> simp [wrapped, zero]
  · by_cases negative : 2 ^ (n - 1) ≤ (ρ x none + ρ y none + ρ "CF" none % 2) % 2 ^ n <;>
      simp [wrapped, signed_lt_zero positive, negative]
  · rw [wrapped] at carries
    simp only [show (2 : Nat) ^ 4 = 16 by rfl] at carries
    have low : ∀ s, s % 2 ^ n % 16 = s % 16 := fun s => Nat.mod_mod_of_dvd s (pow_dvd_pow 2 nibble)
    simp only [low, ← carries]
    generalize (ρ x none + ρ y none + ρ "CF" none % 2) % 16 = sum
    by_cases equal : sum = ρ x none % 16 <;> by_cases less : sum < ρ x none % 16 <;>
      rcases Nat.mod_two_eq_zero_or_one (ρ "CF" none) with clear | set <;> simp [*]
  · intro name fresh
    simp at fresh
    simp [fresh]

end Sum

theorem denote_flag {ρ : Valuation} {name : String} {set : Bool} (value : ρ name none = set.toNat) :
    (Rvalue.var name none 0 1).denote ρ = some (.flag set) := by
  rw [Rvalue.denote, value]
  cases set <;> rfl

theorem operand_denote {ρ : Valuation} {reg : Amd64.Register} {v : Nat} (holds : ρ reg.name none = v % 2 ^ reg.width) :
    (operand reg).denote ρ = some (.ofNat reg.width v) := by
  rw [operand, Rvalue.denote, holds, pow_zero, Nat.div_one]
  congr 1
  exact Bits.ext rfl (Nat.mod_mod _ _)

section Registers

variable {ρ : Valuation} {a b : Amd64.Register} {c : Nat}

/-- Before the overflow flag is set: the sum is known, with the flags but two, and the operands are not touched. -/
structure Halfway (n a b c : Nat) (after : Valuation) : Prop extends Summed n a b c after where
  carry : after "CF" none = (decide (2 ^ n ≤ a + b + c)).toNat
  adjust : after "AF" none = (decide (16 ≤ a % 16 + b % 16 + c)).toNat

/-- What is left to do after the sum: the overflow and parity flags and the destination. -/
theorem rest_emits (byte : 8 ≤ a.width) (width : a.width ≤ 64) (bit : c ≤ 1)
    (halfway : Halfway a.width (value ρ a) (ρ b.name none % 2 ^ a.width) c ρ) :
    ∃ overflow parity write after,
      setOverflowFlag (.var "res" none a.width) (operand a) (.var b.name none 0 a.width) a.width = .returns overflow ∧
      setParityFlag (.var "res" none a.width) = .returns parity ∧
      Amd64.Semantic.writeReg (operand a) (.var "res" none 0 a.width) a.width = .returns write ∧
      run (overflow ++ parity ++ write) ρ = some after ∧
      Adds a.width (value ρ a) (ρ b.name none % 2 ^ a.width) c (operand a) after := by
  have positive : a.width ≠ 0 := by omega
  obtain ⟨overflow, ρ1, code1, run1, flagged1, kept1⟩ :=
    setOverflowFlag_emits (ρ := ρ) (y := b.name) positive width (name_fresh a)
  obtain ⟨parity, ρ2, code2, run2, flagged2, kept2⟩ := setParityFlag_emits (ρ := ρ1) byte
  obtain ⟨write, ρ3, code3, run3, written, kept3⟩ := writeReg_emits (ρ := ρ2) a positive width
  refine ⟨overflow, parity, write, ρ3, code1, code2, code3, ?_, ?_⟩
  · simp [run_append, run1, run2, run3]
  have res : ρ1 "res" none = (value ρ a + ρ b.name none % 2 ^ a.width + c) % 2 ^ a.width := by
    rw [kept1 "res" (by decide), halfway.sum]
  have kept : ∀ flag ∈ ["CF", "ZF", "SF", "AF"], ρ3 flag none = ρ flag none := by
    intro flag member
    have apart : flag ∈ flags ∧ flag ∉ ["PF", "half_res"] ∧ flag ∉ ["OF", "of1", "of2"] := by
      revert flag
      decide
    rw [kept3 flag apart.1, kept2 flag apart.2.1, kept1 flag apart.2.2]
  constructor
  · apply operand_denote
    rw [written, kept2 "res" (by decide), res, Nat.mod_mod]
  · apply denote_flag
    rw [kept "CF" (by decide), halfway.carry]
  · apply denote_flag
    have top : ∀ v, (v % 2 ^ a.width).testBit (a.width - 1) = v.testBit (a.width - 1) := by
      intro v
      rw [Nat.testBit_mod_two_pow, decide_eq_true (by omega), Bool.true_and]
    rw [kept3 "OF" (by decide), kept2 "OF" (by decide), flagged1, halfway.sum, ← top (ρ a.name none),
      ← top (ρ b.name none)]
    exact congrArg Bool.toNat
      (overflow_eq positive (Nat.mod_lt _ (by positivity)) (Nat.mod_lt _ (by positivity)) bit)
  · apply denote_flag
    rw [kept "ZF" (by decide), halfway.zero]
  · apply denote_flag
    rw [kept "SF" (by decide), halfway.sign]
  · apply denote_flag
    have same : ∀ i ∈ List.range 8, ((value ρ a + ρ b.name none % 2 ^ a.width + c) % 2 ^ a.width).testBit i =
        (value ρ a + ρ b.name none % 2 ^ a.width + c).testBit i := by
      intro i member
      rw [Nat.testBit_mod_two_pow, decide_eq_true (by have := List.mem_range.mp member; omega), Bool.true_and]
    rw [kept3 "PF" (by decide), flagged2, res, List.countP_congr fun i member => by rw [same i member]]
  · apply denote_flag
    rw [kept "AF" (by decide), halfway.adjust]

theorem operand_of_width (same : b.width = a.width) : operand b = .var b.name none 0 a.width := by rw [operand, same]

theorem name_not_mem (reg : Amd64.Register) {names : List String} (temporary : names ⊆ temporaries) : reg.name ∉ names :=
  fun member => name_fresh reg (temporary member)

/-- The addition is generated, and run it leaves the sum and its flags. -/
def Performs (code : Outcome String (List Statement × Amd64.JumpSpec)) (ρ : Valuation) (post : Valuation → Prop) : Prop :=
  ∃ stmts, code = .returns (stmts, Amd64.JumpSpec.fallThru) ∧ Leads Statement.Steps stmts ρ post

private theorem add_performs (byte : 8 ≤ a.width) (width : a.width ≤ 64) (same : b.width = a.width) :
    Performs (Amd64.Semantic.add (operand a) (operand b)) ρ
      (Adds a.width (value ρ a) (value ρ b) 0 (operand a)) := by
  have positive : a.width ≠ 0 := by omega
  have nibble : 4 ≤ a.width := by omega
  obtain ⟨sum, ρ1, code1, run1, summed, carry, kept1⟩ := addSum_emits (ρ := ρ) (y := b.name) positive (name_fresh a)
  obtain ⟨adjust, ρ2, code2, run2, flagged, kept2⟩ := setAdjFlag_emits (ρ := ρ1) (x := a.name) nibble
  have unchanged : ∀ reg : Amd64.Register, ρ2 reg.name none = ρ reg.name none := by
    intro reg
    rw [kept2 reg.name (name_not_mem reg (by decide)), kept1 reg.name (name_not_mem reg (by decide))]
  have valueA : value ρ2 a = value ρ a := congrArg (· % 2 ^ a.width) (unchanged a)
  have valueB : ρ2 b.name none % 2 ^ a.width = value ρ b := by rw [unchanged, value, same]
  have halfway : Halfway a.width (value ρ2 a) (ρ2 b.name none % 2 ^ a.width) 0 ρ2 := by
    rw [valueA, valueB, value, value, same]
    constructor
    · constructor
      · rw [kept2 "res" (by decide), summed.sum]
      · rw [kept2 "ZF" (by decide), summed.zero]
      · rw [kept2 "SF" (by decide), summed.sign]
    · rw [kept2 "CF" (by decide), carry, add_zero]
    · have low : ∀ v, v % 2 ^ a.width % 16 = v % 16 := fun v => Nat.mod_mod_of_dvd v (pow_dvd_pow 2 nibble)
      have carries := carry_iff (n := 4) (Nat.mod_lt (ρ a.name none) (by positivity))
        (Nat.mod_lt (ρ b.name none) (by positivity)) (Nat.zero_le 1)
      rw [flagged, summed.sum, kept1 a.name (name_not_mem a (by decide)), wrapped, low, low, low]
      rw [wrapped] at carries
      simp at carries
      simp [carries]
  obtain ⟨overflow, parity, write, ρ3, code3, code4, code5, run3, adds⟩ := rest_emits byte width (Nat.zero_le 1) halfway
  rw [valueA, valueB] at adds
  refine ⟨sum ++ adjust ++ overflow ++ parity ++ write, ?_, ?_⟩
  · rw [operand_of_width same, Amd64.Semantic.add, signExtend_same positive rfl rfl]
    simp only [operand, Outcome.returns_bind, Outcome.pure_eq, Lvalue.toRvalue, List.nil_append] at code1 code3 code5 ⊢
    simp only [code1, code2, code3, code4, code5, Outcome.returns_bind]
  · have steps : run (sum ++ adjust ++ overflow ++ parity ++ write) ρ = some ρ3 := by
      simp only [run_append, run1, run2, Option.bind_eq_bind, Option.bind_some] at run3 ⊢
      exact run3
    exact (leads_of_run steps).imp fun after final => final ▸ adds

private theorem adc_performs (byte : 8 ≤ a.width) (width : a.width ≤ 64) (same : b.width = a.width) :
    Performs (Amd64.Semantic.adc (operand a) (operand b)) ρ
      (Adds a.width (value ρ a) (value ρ b) (ρ "CF" none % 2) (operand a)) := by
  have positive : a.width ≠ 0 := by omega
  have nibble : 4 ≤ a.width := by omega
  have bit : ρ "CF" none % 2 ≤ 1 := by omega
  obtain ⟨sum, ρ1, code1, run1, summed, adjust, kept1⟩ := adcSum_emits (ρ := ρ) (y := b.name) nibble (name_fresh a)
  obtain ⟨carry, ρ2, code2, run2, flagged, kept2⟩ := setCarryFlag_emits (ρ := ρ1) positive (name_fresh a)
  have unchanged : ∀ reg : Amd64.Register, ρ2 reg.name none = ρ reg.name none := by
    intro reg
    rw [kept2 reg.name (name_not_mem reg (by decide)), kept1 reg.name (name_not_mem reg (by decide))]
  have valueA : value ρ2 a = value ρ a := congrArg (· % 2 ^ a.width) (unchanged a)
  have valueB : ρ2 b.name none % 2 ^ a.width = value ρ b := by rw [unchanged, value, same]
  have halfway : Halfway a.width (value ρ2 a) (ρ2 b.name none % 2 ^ a.width) (ρ "CF" none % 2) ρ2 := by
    rw [valueA, valueB, value, value, same]
    constructor
    · constructor
      · rw [kept2 "res" (by decide), summed.sum]
      · rw [kept2 "ZF" (by decide), summed.zero]
      · rw [kept2 "SF" (by decide), summed.sign]
    · have carries := carry_iff (Nat.mod_lt (ρ a.name none) (by positivity)) (Nat.mod_lt (ρ b.name none) (by positivity))
        bit (n := a.width)
      rw [flagged, summed.sum, kept1 a.name (name_not_mem a (by decide)), kept1 "CF" (by decide), Nat.mod_mod]
      simp [← carries]
    · have low : ∀ v, v % 2 ^ a.width % 16 = v % 16 := fun v => Nat.mod_mod_of_dvd v (pow_dvd_pow 2 nibble)
      rw [kept2 "AF" (by decide), adjust, low, low]
  obtain ⟨overflow, parity, write, ρ3, code3, code4, code5, run3, adds⟩ := rest_emits byte width bit halfway
  rw [valueA, valueB] at adds
  refine ⟨sum ++ carry ++ overflow ++ parity ++ write, ?_, ?_⟩
  · have low : (Lvalue.var "res" none a.width).extract 4 0 = .ok (.var "res" none 0 4) := by simp [Lvalue.extract, nibble]
    have lowA : (operand a).extract 4 0 = .ok (.var a.name none 0 4) := by simp [operand, Rvalue.extract, nibble]
    rw [operand_of_width same, Amd64.Semantic.adc, signExtend_same positive rfl rfl]
    simp only [low, lowA, Except.toOption, Outcome.unwrap, Outcome.returns_bind, Outcome.pure_eq, Lvalue.toRvalue,
      List.nil_append]
    simp only [operand] at code1 code3 code5 ⊢
    simp only [code1, code2, code3, code4, code5, Outcome.returns_bind]
  · have steps : run (sum ++ carry ++ overflow ++ parity ++ write) ρ = some ρ3 := by
      simp only [run_append, run1, run2, Option.bind_eq_bind, Option.bind_some] at run3 ⊢
      exact run3
    exact (leads_of_run steps).imp fun after final => final ▸ adds

end Registers

/-- Adding two registers of one width leaves the sum in the first one and sets the flags to those of
the sum; with `adc` the old carry is part of the sum. -/
theorem additions_set_flags (a b : Amd64.Register) (width : a.width ∈ [8, 16, 32, 64]) (same : b.width = a.width)
    (ρ : Valuation) :
    Performs (Amd64.Semantic.add (operand a) (operand b)) ρ
      (Adds a.width (value ρ a) (value ρ b) 0 (operand a)) ∧
    Performs (Amd64.Semantic.adc (operand a) (operand b)) ρ
      (Adds a.width (value ρ a) (value ρ b) (ρ "CF" none % 2) (operand a)) := by
  have bounds : 8 ≤ a.width ∧ a.width ≤ 64 := by
    simp only [List.mem_cons, List.not_mem_nil, or_false] at width
    omega
  exact ⟨add_performs bounds.1 bounds.2 same, adc_performs bounds.1 bounds.2 same⟩

/-- A byte register and the carry, both as large as they can be. -/
theorem additions_set_flags_bytes :
    let full : Valuation := fun _ _ => 255
    Performs (Amd64.Semantic.add (operand .AH) (operand .BL)) full
      (Adds 8 (value full .AH) (value full .BL) 0 (operand .AH)) ∧
    Performs (Amd64.Semantic.adc (operand .AH) (operand .BL)) full
      (Adds 8 (value full .AH) (value full .BL) (full "CF" none % 2) (operand .AH)) :=
  additions_set_flags .AH .BL (by decide) rfl _

end Panopticon.Proofs.Addition
