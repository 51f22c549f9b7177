import Panopticon.Proofs.Addition

/-! Subtraction and comparison of amd64 registers. The helper for the carry flag was written for
a difference with borrow: after a plain one it keeps an old carry when nothing is subtracted. -/

namespace Panopticon.Proofs.Subtraction
open Panopticon.Library Panopticon.Library.Word WriteRegister Addition
open Amd64.Semantic (setSubAdjFlag setSubCarryFlag setSubOverflowFlag setParityFlag)

/-- What is left of `a` after `b` and `c` are subtracted, in `n` bits. -/
def difference (n a b c : Nat) : Nat := ((a - b - c : Int) % 2 ^ n).toNat

section Difference

variable {n a b c : Nat}

theorem natCast_difference : (difference n a b c : Int) = (a - b - c : Int) % 2 ^ n :=
  Int.toNat_of_nonneg (Int.emod_nonneg _ (by positivity))

theorem difference_lt : difference n a b c < 2 ^ n := by
  have bound := Int.emod_lt_of_pos (a - b - c : Int) (show (0 : Int) < 2 ^ n by positivity)
  rw [← natCast_difference] at bound
  exact_mod_cast bound

/-- At most one borrow leaves the `n` bits. -/
theorem difference_eq (smallA : a < 2 ^ n) (smallB : b < 2 ^ n) (bit : c ≤ 1) :
    difference n a b c = if a < b + c then 2 ^ n + a - b - c else a - b - c := by
  have power : ((2 ^ n : Nat) : Int) = 2 ^ n := by norm_cast
  zify [← @Nat.cast_inj Int]
  rw [natCast_difference, ← power]
  split
  next borrows =>
    rw [← Int.add_emod_right, Int.emod_eq_of_lt (by omega) (by omega)]
    omega
  next fits =>
    rw [Int.emod_eq_of_lt (by omega) (by omega)]
    omega

theorem difference_carry : difference n (difference n a b 0) (c % 2 ^ n) 0 = difference n a b c := by
  rw [difference, natCast_difference, difference]
  push_cast
  rw [sub_zero, ← Int.sub_emod, sub_zero]

theorem difference_mod : difference n (a % 2 ^ n) (b % 2 ^ n) c = difference n a b c := by
  rw [difference, difference]
  push_cast
  rw [Int.sub_emod (_ - _), ← Int.sub_emod (a : Int), ← Int.sub_emod]

private theorem difference_low {m : Nat} (below : m ≤ n) : difference n a b c % 2 ^ m = difference m a b c := by
  have divides : (2 : Int) ^ m ∣ 2 ^ n := pow_dvd_pow 2 below
  zify
  rw [natCast_difference, natCast_difference, Int.emod_emod_of_dvd _ divides]

/-- The borrow out of `n` bits, from the result and one operand. -/
theorem borrow_iff (smallA : a < 2 ^ n) (smallB : b < 2 ^ n) (bit : c ≤ 1) :
    a < difference n a b c ∨ difference n a b c = a ∧ c = 1 ↔ a < b + c := by
  rw [difference_eq smallA smallB bit]
  split <;> omega

theorem nibble_borrow_iff (nibble : 4 ≤ n) (bit : c ≤ 1) :
    a % 16 < difference n (a % 2 ^ n) (b % 2 ^ n) c % 16 ∨
      difference n (a % 2 ^ n) (b % 2 ^ n) c % 16 = a % 16 ∧ c = 1 ↔ a % 16 < b % 16 + c := by
  have low : difference n (a % 2 ^ n) (b % 2 ^ n) c % 16 = difference 4 (a % 2 ^ 4) (b % 2 ^ 4) c := by
    rw [difference_mod, difference_mod, ← difference_low nibble]
    rfl
  rw [low]
  exact borrow_iff (n := 4) (Nat.mod_lt a (by decide)) (Nat.mod_lt b (by decide)) bit

/-- Without borrow the result is the first operand only if nothing is subtracted. -/
theorem difference_eq_left (smallA : a < 2 ^ n) (smallB : b < 2 ^ n) : difference n a b 0 = a ↔ b = 0 := by
  rw [difference_eq smallA smallB (Nat.zero_le 1)]
  split <;> omega

theorem overflow_eq (positive : n ≠ 0) (smallA : a < 2 ^ n) (smallB : b < 2 ^ n) (bit : c ≤ 1) :
    ((a.testBit (n - 1) ^^ b.testBit (n - 1)) && !(b.testBit (n - 1) ^^ (difference n a b c).testBit (n - 1))) =
      decide ¬(-2 ^ (n - 1) ≤ twos n a - twos n b - c ∧ twos n a - twos n b - c < 2 ^ (n - 1)) := by
  have power : 2 ^ n = 2 ^ (n - 1) * 2 := by rw [← pow_succ, Nat.sub_add_cancel (by omega)]
  have powerInt : (2 : Int) ^ n = 2 ^ (n - 1) * 2 := by exact_mod_cast power
  have half : ((2 ^ (n - 1) : Nat) : Int) = 2 ^ (n - 1) := by norm_cast
  rw [testBit_top positive smallA, testBit_top positive smallB, testBit_top positive difference_lt,
    twos_eq positive smallA, twos_eq positive smallB, difference_eq smallA smallB bit, powerInt, ← half]
  rw [power] at smallA smallB ⊢
  generalize 2 ^ (n - 1) = p at *
  rw [Bool.eq_iff_iff]
  rcases Nat.lt_or_ge a p with posA | negA <;> rcases Nat.lt_or_ge b p with posB | negB <;>
    rcases Nat.lt_or_ge a (b + c) with borrows | fits
  all_goals
    simp only [Nat.not_le.mpr, Nat.not_lt.mpr, *]
    simp
    omega

end Difference

section Flags

variable {ρ : Valuation} {n : Nat} {x y : String}

attribute [local simp] Amd64.Semantic.bit Statement.sanityCheck Statement.typecheck Statement.typecheckCmpop
  Statement.typecheckBinop Statement.typecheckUnop Operation.operands Operation.lift Operation.result Rvalue.size
  Lvalue.size Lvalue.toRvalue Rvalue.extract Lvalue.extract Rvalue.bits Rvalue.denote run Statement.next
  Valuation.assign Bits.flag

theorem setSubAdjFlag_emits (nibble : 4 ≤ n) : Emits (setSubAdjFlag (.var "res" none n) (.var x none 0 n)) ρ fun after =>
    after "AF" none = (decide (ρ x none % 16 < ρ "res" none % 16)).toNat ∧ Keeps ["AF"] ρ after := by
  have low : (Lvalue.var "res" none n).extract 4 0 = .ok (.var "res" none 0 4) := by simp [nibble]
  have lowA : (Rvalue.var x none 0 n).extract 4 0 = .ok (.var x none 0 4) := by simp [nibble]
  simp only [setSubAdjFlag, low, lowA, Except.toOption, Outcome.unwrap, Outcome.returns_bind]
  apply emits_rreil
  · simp [pure, Except.pure, bind, Except.bind]
  simp
  constructor
  · by_cases less : ρ x none % 16 < ρ "res" none % 16 <;> simp [less]
  · intro name fresh
    simp at fresh
    simp [fresh]

theorem setSubCarryFlag_emits (positive : n ≠ 0) (fresh : x ∉ temporaries) :
    Emits (setSubCarryFlag (.var "res" none n) (.var x none 0 n)) ρ fun after =>
      after "CF" none = (decide (ρ x none % 2 ^ n < ρ "res" none % 2 ^ n) ||
        decide (ρ "res" none % 2 ^ n = ρ x none % 2 ^ n) && decide (ρ "CF" none % 2 = 1)).toNat ∧
      Keeps ["CF", "cf1", "cf2"] ρ after := by
  simp [temporaries] at fresh
  rw [setSubCarryFlag]
  apply emits_rreil
  · simp [pure, Except.pure, bind, Except.bind, positive]
  simp [fresh]
  constructor
  · by_cases equal : ρ "res" none % 2 ^ n = ρ x none % 2 ^ n <;>
      by_cases less : ρ x none % 2 ^ n < ρ "res" none % 2 ^ n <;>
      rcases Nat.mod_two_eq_zero_or_one (ρ "CF" none) with clear | set <;> simp [*]
  · intro name fresh
    simp at fresh
    simp [fresh]

private theorem setSubOverflowFlag_emits (positive : n ≠ 0) (width : n ≤ 64) (fresh : y ∉ temporaries) :
    Emits (setSubOverflowFlag (.var "res" none n) (.var x none 0 n) (.var y none 0 n) n) ρ fun after =>
      after "OF" none = (((ρ x none).testBit (n - 1) ^^ (ρ y none).testBit (n - 1)) &&
        !((ρ y none).testBit (n - 1) ^^ (ρ "res" none).testBit (n - 1))).toNat ∧
      Keeps ["OF", "of1", "of2"] ρ after := by
  simp [temporaries] at fresh
  rw [setSubOverflowFlag]
  apply emits_rreil
  · simp [pure, Except.pure, bind, Except.bind, positive]
  simp [fresh]
  constructor
  · have inside : n - 1 < n := by omega
    have word : n - 1 < 64 := by omega
    simp only [← Nat.toNat_testBit, Nat.testBit_mod_two_pow, Nat.testBit_xor,
      show 18446744073709551615 = 2 ^ 64 - 1 by rfl, Nat.testBit_two_pow_sub_one, inside, word, decide_true, Bool.true_and]
    cases (ρ x none).testBit (n - 1) <;> cases (ρ y none).testBit (n - 1) <;>
      cases (ρ "res" none).testBit (n - 1) <;> rfl
  · intro name fresh
    simp at fresh
    simp [fresh]

/-- What the statements before the flag helpers leave. -/
structure Differs (n a b c : Nat) (after : Valuation) : Prop where
  rest : after "res" none = difference n a b c
  zero : after "ZF" none = (decide (difference n a b c = 0)).toNat
  sign : after "SF" none = (decide (2 ^ (n - 1) ≤ difference n a b c)).toNat

theorem value_ofInt (a b : Nat) :
    (Bits.ofInt n ((a : Int) % 2 ^ n - (b : Int) % 2 ^ n)).value = difference n (a % 2 ^ n) (b % 2 ^ n) 0 := by
  simp [Bits.ofInt, difference]

private theorem subDifference_emits (positive : n ≠ 0) :
    Emits (.ofExcept (rreil [
      ⟨.var "res" none n, .subtract (.var x none 0 n) (.var y none 0 n)⟩,
      ⟨.var "SF" none 1, .lessSigned (.var "res" none 0 n) (.constant 0 n)⟩,
      ⟨.var "ZF" none 1, .equal (.var "res" none 0 n) (.constant 0 n)⟩])) ρ fun after =>
    Differs n (ρ x none % 2 ^ n) (ρ y none % 2 ^ n) 0 after ∧ Keeps ["res", "SF", "ZF"] ρ after := by
  have small := Nat.mod_eq_of_lt (difference_lt (n := n) (a := ρ x none % 2 ^ n) (b := ρ y none % 2 ^ n) (c := 0))
  apply emits_rreil
  · simp [pure, Except.pure, bind, Except.bind, positive]
  simp [value_ofInt, small]
  refine ⟨⟨?_, ?_, ?_⟩, ?_⟩
  · simp
  · by_cases zero : difference n (ρ x none % 2 ^ n) (ρ y none % 2 ^ n) 0 = 0 <;> simp [zero]
  · by_cases negative : 2 ^ (n - 1) ≤ difference n (ρ x none % 2 ^ n) (ρ y none % 2 ^ n) 0 <;>
      simp [signed_lt_zero positive, small, negative]
  · intro name fresh
    simp at fresh
    simp [fresh]

private theorem sbbDifference_emits (nibble : 4 ≤ n) (freshX : x ∉ temporaries) :
    Emits (.ofExcept (rreil [
      ⟨.var "res" none n, .subtract (.var x none 0 n) (.var y none 0 n)⟩,
      ⟨.var "cf" none n, .zeroExtend n (Amd64.Semantic.bit "CF" 0)⟩,
      ⟨.var "res" none n, .subtract (.var "res" none 0 n) (.var "cf" none 0 n)⟩,
      ⟨.var "SF" none 1, .lessSigned (.var "res" none 0 n) (.constant 0 n)⟩,
      ⟨.var "ZF" none 1, .equal (.var "res" none 0 n) (.constant 0 n)⟩,
      ⟨.var "af1" none 1, .equal (.var "res" none 0 4) (.var x none 0 4)⟩,
      ⟨.var "af2" none 1, .lessUnsigned (.var x none 0 4) (.var "res" none 0 4)⟩,
      ⟨.var "af1" none 1, .and (Amd64.Semantic.bit "af1" 0) (Amd64.Semantic.bit "CF" 0)⟩,
      ⟨.var "AF" none 1, .inclusiveOr (Amd64.Semantic.bit "af1" 0) (Amd64.Semantic.bit "af2" 0)⟩])) ρ fun after =>
    Differs n (ρ x none % 2 ^ n) (ρ y none % 2 ^ n) (ρ "CF" none % 2) after ∧
    after "AF" none = (decide (ρ x none % 16 < ρ y none % 16 + ρ "CF" none % 2)).toNat ∧
    Keeps ["res", "cf", "SF", "ZF", "af1", "af2", "AF"] ρ after := by
  have positive : n ≠ 0 := by omega
  have small := fun c =>
    Nat.mod_eq_of_lt (difference_lt (n := n) (a := ρ x none % 2 ^ n) (b := ρ y none % 2 ^ n) (c := c))
  simp [temporaries] at freshX
  apply emits_rreil
  · simp [pure, Except.pure, bind, Except.bind, positive]
  simp [freshX, value_ofInt, difference_carry, small]
  have borrows := nibble_borrow_iff (a := ρ x none) (b := ρ y none) nibble (show ρ "CF" none % 2 ≤ 1 by omega)
  have fits := small (ρ "CF" none % 2)
  generalize same : difference n (ρ x none % 2 ^ n) (ρ y none % 2 ^ n) (ρ "CF" none % 2) = rest at *
  refine ⟨⟨?_, ?_, ?_⟩, ?_, ?_⟩
  · simp [same]
  · by_cases zero : rest = 0 <;> simp [same, zero]
  · by_cases negative : 2 ^ (n - 1) ≤ rest <;> simp [same, signed_lt_zero positive, fits, negative]
  · simp only [← borrows]
    generalize rest % 16 = low
    by_cases equal : low = ρ x none % 16 <;> by_cases less : ρ x none % 16 < low <;>
      rcases Nat.mod_two_eq_zero_or_one (ρ "CF" none) with clear | set <;> simp [*]
  · intro name fresh
    simp at fresh
    simp [fresh]

end Flags

/-- The flags are those of `a` less `b` and `c`, but for the carry flag. -/
structure Compares (n a b c : Nat) (carry : Bool) (after : Valuation) : Prop where
  carry : (Rvalue.var "CF" none 0 1).denote after = some (.flag carry)
  overflow : (Rvalue.var "OF" none 0 1).denote after =
    some (.flag ¬(-2 ^ (n - 1) ≤ twos n a - twos n b - c ∧ twos n a - twos n b - c < 2 ^ (n - 1)))
  zero : (Rvalue.var "ZF" none 0 1).denote after = some (.flag (difference n a b c = 0))
  sign : (Rvalue.var "SF" none 0 1).denote after = some (.flag (2 ^ (n - 1) ≤ difference n a b c))
  parity : (Rvalue.var "PF" none 0 1).denote after =
    some (.flag (Even ((List.range 8).countP fun i => (difference n a b c).testBit i)))
  adjust : (Rvalue.var "AF" none 0 1).denote after = some (.flag (a % 16 < b % 16 + c))

/-- The destination holds the difference as well. -/
structure Subtracts (n a b c : Nat) (carry : Bool) (dest : Rvalue) (after : Valuation) : Prop
    extends Compares n a b c carry after where
  rest : dest.denote after = some (.ofNat n (difference n a b c))

section Registers

variable {ρ : Valuation} {a b : Amd64.Register} {c : Nat}

/-- Before the overflow flag is set: the difference is known, with the flags but two, and the operands are not touched. -/
structure Halfway (n a b c : Nat) (carry : Bool) (after : Valuation) : Prop extends Differs n a b c after where
  carry : after "CF" none = carry.toNat
  adjust : after "AF" none = (decide (a % 16 < b % 16 + c)).toNat

theorem flags_emit {carry : Bool} (byte : 8 ≤ a.width) (width : a.width ≤ 64) (bit : c ≤ 1)
    (halfway : Halfway a.width (value ρ a) (ρ b.name none % 2 ^ a.width) c carry ρ) :
    ∃ overflow parity after,
      setSubOverflowFlag (.var "res" none a.width) (operand a) (.var b.name none 0 a.width) a.width = .returns overflow ∧
      setParityFlag (.var "res" none a.width) = .returns parity ∧
      run (overflow ++ parity) ρ = some after ∧
      Compares a.width (value ρ a) (ρ b.name none % 2 ^ a.width) c carry after ∧
      after "res" none = difference a.width (value ρ a) (ρ b.name none % 2 ^ a.width) c := by
  have positive : a.width ≠ 0 := by omega
  obtain ⟨overflow, ρ1, code1, run1, flagged1, kept1⟩ :=
    setSubOverflowFlag_emits (ρ := ρ) (x := a.name) positive width (name_fresh b)
  obtain ⟨parity, ρ2, code2, run2, flagged2, kept2⟩ := setParityFlag_emits (ρ := ρ1) byte
  have res : ρ1 "res" none = difference a.width (value ρ a) (ρ b.name none % 2 ^ a.width) c := by
    rw [kept1 "res" (by decide), halfway.rest]
  have kept : ∀ flag ∈ ["CF", "ZF", "SF", "AF"], ρ2 flag none = ρ flag none := by
    intro flag member
    have apart : flag ∉ ["PF", "half_res"] ∧ flag ∉ ["OF", "of1", "of2"] := by
      revert flag
      decide
    rw [kept2 flag apart.1, kept1 flag apart.2]
  refine ⟨overflow, parity, ρ2, code1, code2, ?_, ?_, ?_⟩
  · simp [run_append, run1, run2]
  · constructor
    · apply denote_flag
      rw [kept "CF" (by decide), halfway.carry]
    · apply denote_flag
      have top : ∀ v, (v % 2 ^ a.width).testBit (a.width - 1) = v.testBit (a.width - 1) := by
        intro v
        rw [Nat.testBit_mod_two_pow, decide_eq_true (by omega), Bool.true_and]
      rw [kept2 "OF" (by decide), flagged1, halfway.rest, ← top (ρ a.name none), ← top (ρ b.name none)]
      exact congrArg Bool.toNat
        (overflow_eq positive (Nat.mod_lt _ (by positivity)) (Nat.mod_lt _ (by positivity)) bit)
    · apply denote_flag
      rw [kept "ZF" (by decide), halfway.zero]
    · apply denote_flag
      rw [kept "SF" (by decide), halfway.sign]
    · apply denote_flag
      rw [flagged2, res]
    · apply denote_flag
      rw [kept "AF" (by decide), halfway.adjust]
  · rw [kept2 "res" (by decide), res]

/-- The carry flag as the helper sets it after a difference without borrow. -/
def keptCarry (ρ : Valuation) (a b : Amd64.Register) : Bool :=
  decide (value ρ a < value ρ b) || decide (value ρ b = 0) && decide (ρ "CF" none % 2 = 1)

/-- The statements that `sub` and `cmp` share. -/
theorem compare_emits (byte : 8 ≤ a.width) (width : a.width ≤ 64) (same : b.width = a.width) :
    ∃ rest carry adjust overflow parity after,
      Outcome.ofExcept (rreil [
        ⟨.var "res" none a.width, .subtract (operand a) (.var b.name none 0 a.width)⟩,
        ⟨.var "SF" none 1, .lessSigned (.var "res" none 0 a.width) (.constant 0 a.width)⟩,
        ⟨.var "ZF" none 1, .equal (.var "res" none 0 a.width) (.constant 0 a.width)⟩]) = (.returns rest : Outcome String _) ∧
      setSubCarryFlag (.var "res" none a.width) (operand a) = .returns carry ∧
      setSubAdjFlag (.var "res" none a.width) (operand a) = .returns adjust ∧
      setSubOverflowFlag (.var "res" none a.width) (operand a) (.var b.name none 0 a.width) a.width = .returns overflow ∧
      setParityFlag (.var "res" none a.width) = .returns parity ∧
      run (rest ++ carry ++ adjust ++ overflow ++ parity) ρ = some after ∧
      Compares a.width (value ρ a) (value ρ b) 0 (keptCarry ρ a b) after ∧
      after "res" none = difference a.width (value ρ a) (value ρ b) 0 := by
  have positive : a.width ≠ 0 := by omega
  have nibble : 4 ≤ a.width := by omega
  have smallA : value ρ a < 2 ^ a.width := Nat.mod_lt _ (by positivity)
  have smallB : value ρ b < 2 ^ a.width := by
    rw [value, same]
    exact Nat.mod_lt _ (by positivity)
  obtain ⟨rest, ρ1, code1, run1, differs, kept1⟩ := subDifference_emits (ρ := ρ) (x := a.name) (y := b.name) positive
  obtain ⟨carry, ρ2, code2, run2, flagged2, kept2⟩ := setSubCarryFlag_emits (ρ := ρ1) positive (name_fresh a)
  obtain ⟨adjust, ρ3, code3, run3, flagged3, kept3⟩ := setSubAdjFlag_emits (ρ := ρ2) (x := a.name) nibble
  have unchanged : ∀ reg : Amd64.Register, ρ3 reg.name none = ρ reg.name none := by
    intro reg
    rw [kept3 reg.name (name_not_mem reg (by decide)), kept2 reg.name (name_not_mem reg (by decide)),
      kept1 reg.name (name_not_mem reg (by decide))]
  have valueA : value ρ3 a = value ρ a := congrArg (· % 2 ^ a.width) (unchanged a)
  have valueB : ρ3 b.name none % 2 ^ a.width = value ρ b := by rw [unchanged, value, same]
  have res : ρ1 "res" none = difference a.width (value ρ a) (value ρ b) 0 := by
    rw [differs.rest, value, value, same]
  have halfway : Halfway a.width (value ρ3 a) (ρ3 b.name none % 2 ^ a.width) 0 (keptCarry ρ a b) ρ3 := by
    rw [valueA, valueB]
    constructor
    · constructor
      · rw [kept3 "res" (by decide), kept2 "res" (by decide), res]
      · rw [kept3 "ZF" (by decide), kept2 "ZF" (by decide), differs.zero, value, value, same]
      · rw [kept3 "SF" (by decide), kept2 "SF" (by decide), differs.sign, value, value, same]
    · have borrows := borrow_iff smallA smallB (Nat.zero_le 1)
      have equal := difference_eq_left smallA smallB
      rw [kept3 "CF" (by decide), flagged2, kept1 a.name (name_not_mem a (by decide)), kept1 "CF" (by decide), res,
        Nat.mod_eq_of_lt difference_lt, ← value, keptCarry]
      simp only [zero_ne_one, and_false, or_false, add_zero] at borrows
      simp only [borrows, equal]
    · have borrows := nibble_borrow_iff (a := ρ a.name none) (b := ρ b.name none) nibble (Nat.zero_le 1)
      have low : ∀ v, v % 2 ^ a.width % 16 = v % 16 := fun v => Nat.mod_mod_of_dvd v (pow_dvd_pow 2 nibble)
      rw [flagged3, kept2 "res" (by decide), differs.rest, kept2 a.name (name_not_mem a (by decide)),
        kept1 a.name (name_not_mem a (by decide)), value, value, same, low, low]
      simp only [zero_ne_one, and_false, or_false] at borrows
      simp only [borrows]
  obtain ⟨overflow, parity, ρ4, code4, code5, run4, compares, final⟩ := flags_emit byte width (Nat.zero_le 1) halfway
  rw [valueA, valueB] at compares final
  refine ⟨rest, carry, adjust, overflow, parity, ρ4, code1, code2, code3, code4, code5, ?_, compares, final⟩
  simp only [run_append, run1, run2, run3, Option.bind_eq_bind, Option.bind_some] at run4 ⊢
  exact run4

/-- The code is generated, and run it ends in one state. -/
def Ends (code : Outcome String (List Statement × Amd64.JumpSpec)) (ρ : Valuation) (post : Valuation → Prop) : Prop :=
  ∃ stmts after, code = .returns (stmts, Amd64.JumpSpec.fallThru) ∧ run stmts ρ = some after ∧ post after

theorem Ends.performs_iff {code : Outcome String (List Statement × Amd64.JumpSpec)} {known post : Valuation → Prop}
    {condition : Prop} (ends : Ends code ρ known) (decides : ∀ after, known after → (post after ↔ condition)) :
    Performs code ρ post ↔ condition := by
  obtain ⟨stmts, after, generated, final, holds⟩ := ends
  have reached : Leads Statement.Steps stmts ρ post ↔ post after := leads_iff final
  rw [← decides after holds, ← reached]
  constructor
  · intro given
    obtain ⟨stmts', generated', leads⟩ := given
    obtain ⟨rfl, -⟩ := Prod.mk.inj (Outcome.returns.inj (generated'.symm.trans generated))
    exact leads
  · intro leads
    exact ⟨stmts, generated, leads⟩

theorem Compares.carry_iff {n u v : Nat} {carry other : Bool} {after : Valuation} (compares : Compares n u v c carry after) :
    Compares n u v c other after ↔ carry = other := by
  constructor
  · intro same
    exact Bits.flag_inj.mp (Option.some.inj (compares.carry.symm.trans same.carry))
  · rintro rfl
    exact compares

theorem Subtracts.carry_iff {n u v : Nat} {carry other : Bool} {dest : Rvalue} {after : Valuation}
    (subtracts : Subtracts n u v c carry dest after) : Subtracts n u v c other dest after ↔ carry = other := by
  constructor
  · intro same
    exact subtracts.toCompares.carry_iff.mp same.toCompares
  · rintro rfl
    exact subtracts

theorem Compares.subtracts {n u v : Nat} {carry : Bool} {before after : Valuation}
    (compares : Compares n u v c carry before) (res : before "res" none = difference n u v c) (same : a.width = n)
    (assigned : Assigned a.name n before after) : Subtracts n u v c carry (operand a) after := by
  have kept : ∀ flag ∈ flags, (Rvalue.var flag none 0 1).denote after = (Rvalue.var flag none 0 1).denote before := by
    intro flag member
    rw [Rvalue.denote, Rvalue.denote, assigned.2 flag member]
  constructor
  · constructor
    · rw [kept "CF" (by decide), compares.carry]
    · rw [kept "OF" (by decide), compares.overflow]
    · rw [kept "ZF" (by decide), compares.zero]
    · rw [kept "SF" (by decide), compares.sign]
    · rw [kept "PF" (by decide), compares.parity]
    · rw [kept "AF" (by decide), compares.adjust]
  · rw [← same]
    apply operand_denote
    rw [same, assigned.1, res]

theorem cmp_ends (byte : 8 ≤ a.width) (width : a.width ≤ 64) (same : b.width = a.width) :
    Ends (Amd64.Semantic.cmp (operand a) (operand b)) ρ
      (Compares a.width (value ρ a) (value ρ b) 0 (keptCarry ρ a b)) := by
  obtain ⟨rest, carry, adjust, overflow, parity, after, code1, code2, code3, code4, code5, final, compares, -⟩ :=
    compare_emits (ρ := ρ) byte width same
  refine ⟨rest ++ carry ++ adjust ++ overflow ++ parity, after, ?_, final, compares⟩
  rw [operand_of_width same, Amd64.Semantic.cmp, signExtend_same (by omega) rfl rfl]
  simp only [Outcome.returns_bind, Outcome.pure_eq, List.nil_append, code1, code2, code3, code4, code5]

private theorem sub_ends (byte : 8 ≤ a.width) (width : a.width ≤ 64) (same : b.width = a.width) :
    Ends (Amd64.Semantic.sub (operand a) (operand b)) ρ
      (Subtracts a.width (value ρ a) (value ρ b) 0 (keptCarry ρ a b) (operand a)) := by
  obtain ⟨rest, carry, adjust, overflow, parity, after, code1, code2, code3, code4, code5, final, compares, res⟩ :=
    compare_emits (ρ := ρ) byte width same
  obtain ⟨write, last, code6, run6, written⟩ := writeReg_emits (ρ := after) a (by omega) width
  refine ⟨rest ++ carry ++ adjust ++ overflow ++ parity ++ write, last, ?_, ?_, ?_⟩
  · rw [operand_of_width same, Amd64.Semantic.sub, signExtend_same (by omega) rfl rfl]
    simp only [operand, Lvalue.toRvalue] at code1 code2 code3 code4 code6 ⊢
    simp only [Outcome.returns_bind, Outcome.pure_eq, List.nil_append, code1, code2, code3, code4, code5, code6]
  · rw [run_append, final]
    exact run6
  · exact compares.subtracts res rfl written

private theorem sbb_ends (byte : 8 ≤ a.width) (width : a.width ≤ 64) (same : b.width = a.width) :
    Ends (Amd64.Semantic.sbb (operand a) (operand b)) ρ
      (Subtracts a.width (value ρ a) (value ρ b) (ρ "CF" none % 2) (decide (value ρ a < value ρ b + ρ "CF" none % 2))
        (operand a)) := by
  have positive : a.width ≠ 0 := by omega
  have nibble : 4 ≤ a.width := by omega
  have bit : ρ "CF" none % 2 ≤ 1 := by omega
  have smallA : value ρ a < 2 ^ a.width := Nat.mod_lt _ (by positivity)
  have smallB : value ρ b < 2 ^ a.width := by
    rw [value, same]
    exact Nat.mod_lt _ (by positivity)
  obtain ⟨rest, ρ1, code1, run1, differs, adjust, kept1⟩ :=
    sbbDifference_emits (ρ := ρ) (y := b.name) nibble (name_fresh a)
  obtain ⟨carry, ρ2, code2, run2, flagged, kept2⟩ := setSubCarryFlag_emits (ρ := ρ1) positive (name_fresh a)
  have unchanged : ∀ reg : Amd64.Register, ρ2 reg.name none = ρ reg.name none := by
    intro reg
    rw [kept2 reg.name (name_not_mem reg (by decide)), kept1 reg.name (name_not_mem reg (by decide))]
  have valueA : value ρ2 a = value ρ a := congrArg (· % 2 ^ a.width) (unchanged a)
  have valueB : ρ2 b.name none % 2 ^ a.width = value ρ b := by rw [unchanged, value, same]
  have halfway : Halfway a.width (value ρ2 a) (ρ2 b.name none % 2 ^ a.width) (ρ "CF" none % 2)
      (decide (value ρ a < value ρ b + ρ "CF" none % 2)) ρ2 := by
    rw [valueA, valueB]
    constructor
    · constructor
      · rw [kept2 "res" (by decide), differs.rest, value, value, same]
      · rw [kept2 "ZF" (by decide), differs.zero, value, value, same]
      · rw [kept2 "SF" (by decide), differs.sign, value, value, same]
    · have borrows := borrow_iff smallA smallB bit
      have res : ρ1 "res" none = difference a.width (value ρ a) (value ρ b) (ρ "CF" none % 2) := by
        rw [differs.rest, value, value, same]
      rw [flagged, kept1 a.name (name_not_mem a (by decide)), kept1 "CF" (by decide), res,
        Nat.mod_eq_of_lt difference_lt, ← value]
      simp [← borrows]
    · have low : ∀ v, v % 2 ^ a.width % 16 = v % 16 := fun v => Nat.mod_mod_of_dvd v (pow_dvd_pow 2 nibble)
      rw [kept2 "AF" (by decide), adjust, value, value, same, low, low]
  obtain ⟨overflow, parity, ρ3, code3, code4, run3, compares, res⟩ := flags_emit byte width bit halfway
  rw [valueA, valueB] at compares res
  obtain ⟨write, ρ4, code5, run4, written⟩ := writeReg_emits (ρ := ρ3) a positive width
  refine ⟨rest ++ carry ++ overflow ++ parity ++ write, ρ4, ?_, ?_, compares.subtracts res rfl written⟩
  · have low : (Lvalue.var "res" none a.width).extract 4 0 = .ok (.var "res" none 0 4) := by simp [Lvalue.extract, nibble]
    have lowA : (operand a).extract 4 0 = .ok (.var a.name none 0 4) := by simp [operand, Rvalue.extract, nibble]
    rw [operand_of_width same, Amd64.Semantic.sbb, signExtend_same positive rfl rfl]
    simp only [low, lowA, Except.toOption, Outcome.unwrap, Outcome.returns_bind, Outcome.pure_eq, Lvalue.toRvalue,
      List.nil_append]
    simp only [operand] at code1 code2 code3 code5 ⊢
    simp only [code1, code2, code3, code4, code5, Outcome.returns_bind]
  · simp only [run_append, run1, run2, Option.bind_eq_bind, Option.bind_some] at run3 ⊢
    rw [run3]
    exact run4

end Registers

/-- The kept carry is the borrow, but where nothing is subtracted under a set carry flag. -/
theorem keptCarry_eq_iff {ρ : Valuation} {a b : Amd64.Register} :
    keptCarry ρ a b = decide (value ρ a < value ρ b) ↔ ¬(value ρ b = 0 ∧ ρ "CF" none % 2 = 1) := by
  rw [keptCarry]
  by_cases zero : value ρ b = 0 <;> by_cases set : ρ "CF" none % 2 = 1 <;> simp [zero, set]

/-- Comparing and subtracting two registers of one width sets all flags to those of the difference, unless nothing
is subtracted under a set carry flag; subtracting with borrow always does. -/
theorem subtractions_set_flags_iff (a b : Amd64.Register) (width : a.width ∈ [8, 16, 32, 64]) (same : b.width = a.width)
    (ρ : Valuation) :
    (Performs (Amd64.Semantic.sub (operand a) (operand b)) ρ
      (Subtracts a.width (value ρ a) (value ρ b) 0 (value ρ a < value ρ b) (operand a)) ↔
      ¬(value ρ b = 0 ∧ ρ "CF" none % 2 = 1)) ∧
    (Performs (Amd64.Semantic.cmp (operand a) (operand b)) ρ
      (Compares a.width (value ρ a) (value ρ b) 0 (value ρ a < value ρ b)) ↔
      ¬(value ρ b = 0 ∧ ρ "CF" none % 2 = 1)) ∧
    Performs (Amd64.Semantic.sbb (operand a) (operand b)) ρ
      (Subtracts a.width (value ρ a) (value ρ b) (ρ "CF" none % 2) (value ρ a < value ρ b + ρ "CF" none % 2)
        (operand a)) := by
  have bounds : 8 ≤ a.width ∧ a.width ≤ 64 := by
    simp only [List.mem_cons, List.not_mem_nil, or_false] at width
    omega
  refine ⟨?_, ?_, ?_⟩
  · apply (sub_ends bounds.1 bounds.2 same).performs_iff
    intro after subtracts
    rw [subtracts.carry_iff, keptCarry_eq_iff]
  · apply (cmp_ends bounds.1 bounds.2 same).performs_iff
    intro after compares
    rw [compares.carry_iff, keptCarry_eq_iff]
  · obtain ⟨stmts, after, code, final, subtracts⟩ := sbb_ends (ρ := ρ) bounds.1 bounds.2 same
    exact ⟨stmts, code, (leads_iff final).mpr subtracts⟩

/-- A larger byte is subtracted while the carry flag is set. -/
theorem subtractions_set_flags_iff_borrow :
    let ρ : Valuation := fun name _ => if name = "AL" then 0x110 else if name = "BH" then 0x20 else if name = "CF" then 1 else 0
    Performs (Amd64.Semantic.sub (operand .AL) (operand .BH)) ρ (Subtracts 8 0x10 0x20 0 true (operand .AL)) ∧
    Performs (Amd64.Semantic.cmp (operand .AL) (operand .BH)) ρ (Compares 8 0x10 0x20 0 true) ∧
    Performs (Amd64.Semantic.sbb (operand .AL) (operand .BH)) ρ (Subtracts 8 0x10 0x20 1 true (operand .AL)) := by
  intro ρ
  obtain ⟨sub, cmp, sbb⟩ := subtractions_set_flags_iff .AL .BH (by decide) rfl ρ
  have first : value ρ .AL = 0x10 := by decide
  have second : value ρ .BH = 0x20 := by decide
  have carry : ρ "CF" none = 1 := by decide
  rw [first, second, carry] at sub cmp sbb
  exact ⟨sub.mpr (by decide), cmp.mpr (by decide), sbb⟩

/-- Comparing with zero keeps a set carry flag. -/
theorem not_subtractions_set_flags : ¬∀ (a b : Amd64.Register), a.width ∈ [8, 16, 32, 64] → b.width = a.width →
    ∀ ρ : Valuation, Performs (Amd64.Semantic.cmp (operand a) (operand b)) ρ
      (Compares a.width (value ρ a) (value ρ b) 0 (value ρ a < value ρ b)) := by
  intro claim
  let carried : Valuation := fun name _ => if name = "CF" then 1 else 0
  have compares := claim .AL .BL (by decide) rfl carried
  obtain ⟨stmts, after, code, final, kept⟩ := cmp_ends (ρ := carried) (a := .AL) (b := .BL) (by decide) (by decide) rfl
  obtain ⟨stmts', code', leads⟩ := compares
  obtain ⟨rfl, -⟩ := Prod.mk.inj (Outcome.returns.inj (code'.symm.trans code))
  have same := kept.carry_iff.mp ((leads_iff final).mp leads)
  exact absurd same (by decide)

end Panopticon.Proofs.Subtraction
