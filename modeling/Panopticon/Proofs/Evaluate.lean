import Panopticon.Evaluate

/-! What the evaluator computes on constants: arithmetic of fixed width, comparisons, shifts,
resizing and bit fields, each against one definition over the integers. -/

namespace Panopticon
open Panopticon.Library.Word

/-- The `s` bit constant an integer is reduced to. -/
def Rvalue.ofInt (s : Nat) (i : Int) : Rvalue := .constant (word s i) s

theorem Rvalue.constant_eq_ofInt {s : Nat} (width : s ≤ 64) {v : UInt64} {i : Int} :
    Rvalue.constant v s = Rvalue.ofInt s i ↔ (v.toNat : Int) = i % 2 ^ s := by
  rw [Rvalue.ofInt, Rvalue.constant.injEq, eq_word width]
  simp

theorem Rvalue.constant_eq_ofInt_of_lt {s n : Nat} (width : s ≤ 64) {v : UInt64} (same : v.toNat = n)
    (small : n < 2 ^ s) : Rvalue.constant v s = Rvalue.ofInt s n := by
  rw [Rvalue.ofInt, ← eq_word_of_lt width same small]

namespace Proofs.Evaluate

section Arithmetic

variable {s : Nat} (positive : 1 ≤ s) (width : s ≤ 64) {a b : UInt64}

include width

theorem add_constants : execute (.add (.constant a s) (.constant b s)) = .ofInt s (a.toNat + b.toNat) := by
  change Rvalue.constant ((a + b) &&& mask s) s = _
  rw [Rvalue.ofInt, and_mask_eq_word width]
  rw [UInt64.toNat_add]
  push_cast
  rw [Int.emod_emod]

theorem subtract_constants : execute (.subtract (.constant a s) (.constant b s)) = .ofInt s (a.toNat - b.toNat) := by
  change Rvalue.constant ((a - b) &&& mask s) s = _
  rw [Rvalue.ofInt, and_mask_eq_word width]
  have bound := b.toNat_lt
  rw [UInt64.toNat_sub]
  push_cast [bound.le]
  omega

theorem multiply_constants : execute (.multiply (.constant a s) (.constant b s)) = .ofInt s (a.toNat * b.toNat) := by
  change Rvalue.constant ((a * b) &&& mask s) s = _
  rw [Rvalue.ofInt, and_mask_eq_word width]
  rw [UInt64.toNat_mul]
  push_cast
  rw [Int.emod_emod]

variable (smallA : a.toNat < 2 ^ s) (smallB : b.toNat < 2 ^ s)

include smallA smallB

private theorem and_constants :
    execute (.and (.constant a s) (.constant b s)) = .ofInt s (a.toNat &&& b.toNat : Nat) := by
  change Rvalue.constant ((a &&& mask s) &&& (b &&& mask s)) s = _
  rw [and_mask_of_lt smallA, and_mask_of_lt smallB]
  exact Rvalue.constant_eq_ofInt_of_lt width (UInt64.toNat_and a b) (Nat.and_lt_two_pow _ smallB)

private theorem inclusiveOr_constants :
    execute (.inclusiveOr (.constant a s) (.constant b s)) = .ofInt s (a.toNat ||| b.toNat : Nat) := by
  change Rvalue.constant ((a &&& mask s) ||| (b &&& mask s)) s = _
  rw [and_mask_of_lt smallA, and_mask_of_lt smallB]
  exact Rvalue.constant_eq_ofInt_of_lt width (UInt64.toNat_or a b) (Nat.or_lt_two_pow smallA smallB)

private theorem exclusiveOr_constants :
    execute (.exclusiveOr (.constant a s) (.constant b s)) = .ofInt s (a.toNat ^^^ b.toNat : Nat) := by
  change Rvalue.constant ((a &&& mask s) ^^^ (b &&& mask s)) s = _
  rw [and_mask_of_lt smallA, and_mask_of_lt smallB]
  exact Rvalue.constant_eq_ofInt_of_lt width (UInt64.toNat_xor a b) (Nat.xor_lt_two_pow smallA smallB)

private theorem divideUnsigned_constants : execute (.divideUnsigned (.constant a s) (.constant b s)) =
    if b = 0 then .undefined else .ofInt s (a.toNat / b.toNat : Nat) := by
  split
  next zero =>
    subst zero
    rfl
  next nonzero =>
    have quotient : (a / b).toNat = a.toNat / b.toNat := UInt64.toNat_div a b
    have bound : a.toNat / b.toNat < 2 ^ s := (Nat.div_le_self _ _).trans_lt smallA
    rw [execute_divideUnsigned nonzero, Evaluate.divideUnsigned, and_mask_of_lt smallB, if_neg nonzero,
      and_mask_of_lt (by rw [quotient]; exact bound)]
    exact Rvalue.constant_eq_ofInt_of_lt width quotient bound

private theorem modulo_constants : execute (.modulo (.constant a s) (.constant b s)) =
    if b = 0 then .undefined else .ofInt s (a.toNat % b.toNat : Nat) := by
  split
  next zero =>
    subst zero
    rfl
  next nonzero =>
    have remainder : (a % b).toNat = a.toNat % b.toNat := UInt64.toNat_mod a b
    have bound : a.toNat % b.toNat < 2 ^ s := (Nat.mod_le _ _).trans_lt smallA
    rw [execute_modulo nonzero, and_mask_of_lt (by rw [remainder]; exact bound)]
    exact Rvalue.constant_eq_ofInt_of_lt width remainder bound

include positive in
private theorem divideSigned_constants : execute (.divideSigned (.constant a s) (.constant b s)) =
    if b = 0 then .undefined else .ofInt s ((twos s a.toNat).tdiv (twos s b.toNat)) := by
  split
  next zero =>
    subst zero
    rfl
  next nonzero =>
    have divisor : signed s b ≠ 0 := by rwa [ne_eq, signed_eq_zero positive width smallB]
    -- below 64 bits the quotient is reduced by a remainder, at 64 bits by the machine word
    have reduced : ∀ q : UInt64, (if s < 64 then q % bit s.toUInt64 else q) = q &&& mask s := by
      intro q
      split
      next short => exact mod_bit short q
      next long =>
        obtain rfl : s = 64 := by omega
        exact (and_mask_of_lt q.toNat_lt).symm
    rw [execute_divideSigned nonzero, Evaluate.divideSigned, if_neg divisor, reduced, Rvalue.ofInt, and_mask_eq_word width]
    rw [toNat_toUInt64_emod, Int64.toInt_div, toInt_signed positive width smallA, toInt_signed positive width smallB]
    exact_mod_cast Int.bmod_emod

end Arithmetic

/-- Arithmetic on constants of `s` bits is arithmetic modulo `2 ^ s`, and only a zero divisor has no result. -/
theorem execute_arithmetic {s : Nat} (positive : 1 ≤ s) (width : s ≤ 64) {a b : UInt64}
    (smallA : a.toNat < 2 ^ s) (smallB : b.toNat < 2 ^ s) :
    let left := Rvalue.constant a s
    let right := Rvalue.constant b s
    execute (.add left right) = .ofInt s (a.toNat + b.toNat) ∧
    execute (.subtract left right) = .ofInt s (a.toNat - b.toNat) ∧
    execute (.multiply left right) = .ofInt s (a.toNat * b.toNat) ∧
    execute (.and left right) = .ofInt s (a.toNat &&& b.toNat : Nat) ∧
    execute (.inclusiveOr left right) = .ofInt s (a.toNat ||| b.toNat : Nat) ∧
    execute (.exclusiveOr left right) = .ofInt s (a.toNat ^^^ b.toNat : Nat) ∧
    execute (.divideUnsigned left right) =
      (if b = 0 then .undefined else .ofInt s (a.toNat / b.toNat : Nat)) ∧
    execute (.modulo left right) = (if b = 0 then .undefined else .ofInt s (a.toNat % b.toNat : Nat)) ∧
    execute (.divideSigned left right) =
      (if b = 0 then .undefined else .ofInt s ((twos s a.toNat).tdiv (twos s b.toNat))) :=
  ⟨add_constants width, subtract_constants width, multiply_constants width, and_constants width smallA smallB,
    inclusiveOr_constants width smallA smallB, exclusiveOr_constants width smallA smallB,
    divideUnsigned_constants width smallA smallB, modulo_constants width smallA smallB,
    divideSigned_constants positive width smallA smallB⟩

/-- The most negative number of 63 bits divided by minus one. -/
theorem execute_arithmetic_negative :
    execute (.divideSigned (.constant 0x4000000000000000 63) (.constant 0x7fffffffffffffff 63)) =
      .constant 0x4000000000000000 63 := by
  obtain ⟨-, -, -, -, -, -, -, -, quotient⟩ :=
    execute_arithmetic (show 1 ≤ 63 by decide) (by decide)
      (show (0x4000000000000000 : UInt64).toNat < 2 ^ 63 by decide)
      (show (0x7fffffffffffffff : UInt64).toNat < 2 ^ 63 by decide)
  rw [quotient]
  decide +kernel

section Comparisons

variable {s : Nat} (positive : 1 ≤ s) (width : s ≤ 64) {a b : UInt64}
  (smallA : a.toNat < 2 ^ s) (smallB : b.toNat < 2 ^ s)

include smallA smallB

theorem equal_constants : execute (.equal (.constant a s) (.constant b s)) = flag (a.toNat = b.toNat) := by
  change flag (a &&& mask s = b &&& mask s) = _
  rw [and_mask_of_lt smallA, and_mask_of_lt smallB]
  simp only [UInt64.toNat_inj]

theorem lessOrEqualUnsigned_constants :
    execute (.lessOrEqualUnsigned (.constant a s) (.constant b s)) = flag (a.toNat ≤ b.toNat) := by
  change flag (a &&& mask s ≤ b &&& mask s) = _
  rw [and_mask_of_lt smallA, and_mask_of_lt smallB]
  simp only [UInt64.le_iff_toNat_le]

theorem lessUnsigned_constants :
    execute (.lessUnsigned (.constant a s) (.constant b s)) = flag (a.toNat < b.toNat) := by
  have masked : (if s < 64 then b &&& (bit s.toUInt64 - 1) else b) = b := by
    split
    next short =>
      have same : bit s.toUInt64 - 1 = mask s := by rw [mask, if_pos short, bit]
      rw [same, and_mask_of_lt smallB]
    next => rfl
  change flag (a &&& mask s < (if s < 64 then b &&& (bit s.toUInt64 - 1) else b)) = _
  rw [masked, and_mask_of_lt smallA]
  simp only [UInt64.lt_iff_toNat_lt]

include positive width

theorem lessSigned_constants :
    execute (.lessSigned (.constant a s) (.constant b s)) = flag (twos s a.toNat < twos s b.toNat) := by
  change flag (signed s a < signed s b) = _
  simp only [Int64.lt_iff_toInt_lt, toInt_signed positive width smallA, toInt_signed positive width smallB]

theorem lessOrEqualSigned_constants_of_short (short : s < 64) :
    execute (.lessOrEqualSigned (.constant a s) (.constant b s)) = flag (twos s a.toNat ≤ twos s b.toNat) := by
  have power : 2 ^ s = 2 * 2 ^ (s - 1) := by rw [← pow_succ', Nat.sub_add_cancel positive]
  have nonzero : bit (s.toUInt64 - 1) ≠ 0 := by
    rw [toUInt64_sub_one positive, ne_eq, ← UInt64.toNat_inj, toNat_bit (by omega), UInt64.toNat_zero]
    positivity
  have low : bit (s.toUInt64 - 1) - 1 = mask (s - 1) := by
    rw [toUInt64_sub_one positive, mask, if_pos (by omega), bit]
  change Evaluate.lessOrEqualSigned s a b = _
  simp only [Evaluate.lessOrEqualSigned, if_pos short, low, and_bit positive width smallA,
    and_bit positive width smallB, UInt64.le_iff_toNat_le, toNat_and_mask]
  -- the two sign bits decide, and where they agree the bits below them do
  rcases Nat.lt_or_ge a.toNat (2 ^ (s - 1)) with posA | negA <;>
    rcases Nat.lt_or_ge b.toNat (2 ^ (s - 1)) with posB | negB
  · rw [twos_of_lt positive posA, twos_of_lt positive posB, Nat.mod_eq_of_lt posA, Nat.mod_eq_of_lt posB]
    simp [Nat.not_le.mpr posA, Nat.not_le.mpr posB]
  · rw [twos_of_lt positive posA, twos_of_le positive negB smallB]
    have upper : (b.toNat : Int) < 2 ^ s := by exact_mod_cast smallB
    have false : ¬(a.toNat : Int) ≤ b.toNat - 2 ^ s := by omega
    simp [Nat.not_le.mpr posA, negB, nonzero, false]
  · rw [twos_of_le positive negA smallA, twos_of_lt positive posB]
    have upper : (a.toNat : Int) < 2 ^ s := by exact_mod_cast smallA
    have true : (a.toNat : Int) - 2 ^ s ≤ b.toNat := by omega
    simp [negA, Nat.not_le.mpr posB, nonzero, true]
  · rw [twos_of_le positive negA smallA, twos_of_le positive negB smallB]
    rw [power] at smallA smallB
    rw [Nat.mod_eq_sub_mod negA, Nat.mod_eq_of_lt (by omega), Nat.mod_eq_sub_mod negB, Nat.mod_eq_of_lt (by omega)]
    have same : a.toNat - 2 ^ (s - 1) ≤ b.toNat - 2 ^ (s - 1) ↔ (a.toNat : Int) - 2 ^ s ≤ b.toNat - 2 ^ s := by omega
    simp [negA, negB, same]

end Comparisons

theorem lessOrEqualSigned_constants_of_long (a b : UInt64) :
    execute (.lessOrEqualSigned (.constant a 64) (.constant b 64)) = flag (a.toNat ≤ b.toNat) := by
  change Evaluate.lessOrEqualSigned 64 a b = _
  have full : ∀ v : UInt64, v &&& 0xffffffffffffffff = v := fun v => and_mask_of_lt v.toNat_lt
  simp [Evaluate.lessOrEqualSigned, full, UInt64.le_iff_toNat_le]

/-- Less or equal is less or equal to, and is the opposite of the converse less. -/
structure Coherent (less lessOrEqual : Rvalue → Rvalue → Operation Rvalue) (left right : Rvalue) : Prop where
  either : execute (lessOrEqual left right) =
    flag (execute (less left right) = flag true ∨ execute (.equal left right) = flag true)
  converse : execute (lessOrEqual left right) = flag (execute (less right left) = flag false)

/-- Comparisons of `s` bit constants compare the unsigned and the two's complement values. -/
structure Compares (s : Nat) (a b : UInt64) : Prop where
  equal : execute (.equal (.constant a s) (.constant b s)) = flag (a.toNat = b.toNat)
  lessUnsigned : execute (.lessUnsigned (.constant a s) (.constant b s)) = flag (a.toNat < b.toNat)
  lessOrEqualUnsigned : execute (.lessOrEqualUnsigned (.constant a s) (.constant b s)) = flag (a.toNat ≤ b.toNat)
  lessSigned : execute (.lessSigned (.constant a s) (.constant b s)) = flag (twos s a.toNat < twos s b.toNat)
  lessOrEqualSigned :
    execute (.lessOrEqualSigned (.constant a s) (.constant b s)) = flag (twos s a.toNat ≤ twos s b.toNat)
  coherentUnsigned : Coherent .lessUnsigned .lessOrEqualUnsigned (.constant a s) (.constant b s)
  coherentSigned : Coherent .lessSigned .lessOrEqualSigned (.constant a s) (.constant b s)

@[simp] theorem flag_inj {p q : Bool} : flag p = flag q ↔ p = q := by
  cases p <;> cases q <;> decide

/-- Only the signed less or equal of two 64 bit numbers of different signs is not what it should be. -/
theorem lessOrEqualSigned_constants {s : Nat} (positive : 1 ≤ s) (width : s ≤ 64) {a b : UInt64}
    (smallA : a.toNat < 2 ^ s) (smallB : b.toNat < 2 ^ s) :
    execute (.lessOrEqualSigned (.constant a s) (.constant b s)) = flag (twos s a.toNat ≤ twos s b.toNat) ↔
      s < 64 ∨ (2 ^ 63 ≤ a.toNat ↔ 2 ^ 63 ≤ b.toNat) := by
  rcases Nat.lt_or_ge s 64 with short | long
  · simp only [lessOrEqualSigned_constants_of_short positive width smallA smallB short, short, true_or]
  · obtain rfl : s = 64 := by omega
    rw [lessOrEqualSigned_constants_of_long, flag_inj, decide_eq_decide]
    rcases Nat.lt_or_ge a.toNat (2 ^ 63) with posA | negA <;> rcases Nat.lt_or_ge b.toNat (2 ^ 63) with posB | negB
    · rw [twos_of_lt (by decide) posA, twos_of_lt (by decide) posB]
      omega
    · rw [twos_of_lt (by decide) posA, twos_of_le (by decide) negB smallB]
      omega
    · rw [twos_of_le (by decide) negA smallA, twos_of_lt (by decide) posB]
      omega
    · rw [twos_of_le (by decide) negA smallA, twos_of_le (by decide) negB smallB]
      omega

theorem execute_comparisons {s : Nat} (positive : 1 ≤ s) (width : s ≤ 64) {a b : UInt64}
    (smallA : a.toNat < 2 ^ s) (smallB : b.toNat < 2 ^ s) :
    Compares s a b ↔ s < 64 ∨ (2 ^ 63 ≤ a.toNat ↔ 2 ^ 63 ≤ b.toNat) := by
  have signed := lessOrEqualSigned_constants positive width smallA smallB
  constructor
  · intro compares
    exact signed.mp compares.lessOrEqualSigned
  · intro agree
    have same := twos_inj smallA smallB
    have order : twos s a.toNat ≤ twos s b.toNat ↔ twos s a.toNat < twos s b.toNat ∨ a.toNat = b.toNat := by
      rw [← same]
      omega
    refine ⟨equal_constants smallA smallB, lessUnsigned_constants smallA smallB,
      lessOrEqualUnsigned_constants smallA smallB, lessSigned_constants positive width smallA smallB,
      signed.mpr agree, ⟨?_, ?_⟩, ⟨?_, ?_⟩⟩
    · rw [lessOrEqualUnsigned_constants smallA smallB, lessUnsigned_constants smallA smallB,
        equal_constants smallA smallB]
      simp only [flag_inj, decide_eq_true_eq, decide_eq_decide]
      omega
    · rw [lessOrEqualUnsigned_constants smallA smallB, lessUnsigned_constants smallB smallA]
      simp
    · rw [signed.mpr agree, lessSigned_constants positive width smallA smallB, equal_constants smallA smallB]
      simp only [flag_inj, decide_eq_true_eq, decide_eq_decide]
      exact order
    · rw [signed.mpr agree, lessSigned_constants positive width smallB smallA]
      simp

/-- Minus one and zero at 64 bits: the code says that minus one is not less or equal. -/
theorem not_compares_minusOne_zero : ¬Compares 64 0xffffffffffffffff 0 := by
  intro compares
  have wrong := compares.coherentSigned.either
  revert wrong
  decide

theorem execute_comparisons_short :
    Compares 8 0x80 0x7f ∧ execute (.lessOrEqualSigned (.constant 0x80 8) (.constant 0x7f 8)) = flag true :=
  ⟨(execute_comparisons (by decide) (by decide) (by decide) (by decide)).mpr (.inl (by decide)), by decide⟩

section Shifts

variable {s : Nat} (positive : 1 ≤ s) (width : s ≤ 64) {a b : UInt64}
  (smallA : a.toNat < 2 ^ s) (smallB : b.toNat < 2 ^ s)

include width

theorem shiftLeft_constants : execute (.shiftLeft (.constant a s) (.constant b s)) = .ofInt s (a.toNat * 2 ^ b.toNat) ↔
    b.toNat < 64 ∨ 2 ^ s ∣ a.toNat * 2 ^ (b.toNat % 64) := by
  have shifted : ((a <<< b) &&& mask s).toNat = a.toNat * 2 ^ (b.toNat % 64) % 2 ^ s := by
    rw [toNat_and_mask, UInt64.toNat_shiftLeft, Nat.shiftLeft_eq, Nat.mod_mod_of_dvd _ (pow_dvd_pow 2 width)]
  change Rvalue.constant ((a <<< b) &&& mask s) s = _ ↔ _
  rw [Rvalue.constant_eq_ofInt width, shifted]
  norm_cast
  rcases Nat.lt_or_ge b.toNat 64 with small | large
  · rw [Nat.mod_eq_of_lt small]
    simp [small]
  · have vanishes : a.toNat * 2 ^ b.toNat % 2 ^ s = 0 :=
      Nat.mod_eq_zero_of_dvd (Dvd.dvd.mul_left (pow_dvd_pow 2 (by omega)) _)
    rw [vanishes, ← Nat.dvd_iff_mod_eq_zero]
    simp [Nat.not_lt.mpr large]

include smallA

private theorem shiftRightUnsigned_constants :
    execute (.shiftRightUnsigned (.constant a s) (.constant b s)) = .ofInt s (a.toNat / 2 ^ b.toNat : Nat) := by
  have bound : a.toNat / 2 ^ b.toNat < 2 ^ s := (Nat.div_le_self _ _).trans_lt smallA
  change Evaluate.shiftRightUnsigned s a b = _
  rw [Evaluate.shiftRightUnsigned]
  split
  next above =>
    rw [toUInt64_le_iff (by omega)] at above
    have vanishes : a.toNat / 2 ^ b.toNat = 0 :=
      Nat.div_eq_of_lt (smallA.trans_le (Nat.pow_le_pow_right (by decide) above))
    exact Rvalue.constant_eq_ofInt_of_lt width (by rw [vanishes]; rfl) bound
  next below =>
    rw [toUInt64_le_iff (by omega)] at below
    have amount : min (min 64 s) b.toNat = b.toNat := by omega
    have shifted : (a >>> b).toNat = a.toNat / 2 ^ b.toNat := by
      rw [UInt64.toNat_shiftRight, Nat.mod_eq_of_lt (by omega), Nat.shiftRight_eq_div_pow]
    rw [amount, Nat.toUInt64_eq, UInt64.ofNat_toNat, and_mask_of_lt (by rw [shifted]; exact bound)]
    exact Rvalue.constant_eq_ofInt_of_lt width shifted bound

include positive

private theorem shiftRightSigned_constants :
    execute (.shiftRightSigned (.constant a s) (.constant b s)) = .ofInt s (twos s a.toNat / 2 ^ b.toNat) := by
  have value := toInt_signed positive width smallA
  change Evaluate.shiftRightSigned s a b = _
  rw [Evaluate.shiftRightSigned]
  split
  next above =>
    rw [toUInt64_le_iff (by omega)] at above
    have range := twos_bounds positive a.toNat
    have wide : (2 : Int) ^ (s - 1) ≤ 2 ^ b.toNat := pow_le_pow_right₀ (by norm_num) (by omega)
    have sign : signed s a < 0 ↔ twos s a.toNat < 0 := by rw [Int64.lt_iff_toInt_lt, value, Int64.toInt_zero]
    rw [Rvalue.constant_eq_ofInt width]
    split
    next negative =>
      have floor : twos s a.toNat / 2 ^ b.toNat = -1 := by
        rw [Int.ediv_eq_iff_of_pos (by positivity)]
        have := sign.mp negative
        omega
      have power : (1 : Int) ≤ 2 ^ s := one_le_pow₀ (by norm_num)
      rw [floor, toNat_mask width, ← Int.add_emod_right, Int.emod_eq_of_lt (by omega) (by omega)]
      push_cast [Nat.one_le_two_pow]
      ring
    next nonnegative =>
      have floor : twos s a.toNat / 2 ^ b.toNat = 0 := by
        apply Int.ediv_eq_zero_of_lt
        · have := mt sign.mpr nonnegative
          omega
        · omega
      rw [floor]
      simp
  next below =>
    rw [toUInt64_le_iff (by omega)] at below
    rw [Rvalue.ofInt, and_mask_eq_word width]
    rw [toNat_toUInt64_emod, toInt_shiftRight, Nat.mod_eq_of_lt (by omega), value]

end Shifts

/-- Shifts of `s` bit constants multiply and divide by powers of two, whatever the amount. -/
structure Shifts (s : Nat) (a b : UInt64) : Prop where
  left : execute (.shiftLeft (.constant a s) (.constant b s)) = .ofInt s (a.toNat * 2 ^ b.toNat)
  rightUnsigned :
    execute (.shiftRightUnsigned (.constant a s) (.constant b s)) = .ofInt s (a.toNat / 2 ^ b.toNat : Nat)
  rightSigned :
    execute (.shiftRightSigned (.constant a s) (.constant b s)) = .ofInt s (twos s a.toNat / 2 ^ b.toNat)

theorem execute_shifts {s : Nat} (positive : 1 ≤ s) (width : s ≤ 64) {a b : UInt64} (smallA : a.toNat < 2 ^ s)
    (_smallB : b.toNat < 2 ^ s) : Shifts s a b ↔ b.toNat < 64 ∨ 2 ^ s ∣ a.toNat * 2 ^ (b.toNat % 64) := by
  constructor
  · intro shifts
    exact (shiftLeft_constants width).mp shifts.left
  · intro agree
    exact ⟨(shiftLeft_constants width).mpr agree, shiftRightUnsigned_constants width smallA,
      shiftRightSigned_constants positive width smallA⟩

/-- Shifting the byte one by 64 leaves it in place instead of shifting it out. -/
theorem not_shifts_one_by_word : ¬Shifts 8 1 64 := by
  intro shifts
  have wrong := shifts.left
  revert wrong
  decide

theorem execute_shifts_byte :
    Shifts 8 0x81 9 ∧ execute (.shiftRightSigned (.constant 0x81 8) (.constant 9 8)) = .constant 0xff 8 :=
  ⟨(execute_shifts (by decide) (by decide) (by decide) (by decide)).mpr (.inl (by decide)), by decide⟩

section Resizing

variable {s t : Nat} (positive : 1 ≤ s) (widthS : s ≤ 64) (widthT : t ≤ 64) {v : UInt64} (small : v.toNat < 2 ^ s)

include widthT small

private theorem zeroExtend_constant : execute (.zeroExtend t (.constant v s)) = .ofInt t v.toNat := by
  change Rvalue.constant ((v &&& mask s) &&& mask t) t = _
  rw [and_mask_of_lt small, Rvalue.ofInt, and_mask_eq_word widthT rfl]

include positive widthS

theorem signExtend_constant_of_clear (clear : s = 64 ∨ v.toNat < 2 ^ (s - 1)) :
    execute (.signExtend t (.constant v s)) = .ofInt t (twos s v.toNat) := by
  have unset : v &&& (if s < 64 then bit (s.toUInt64 - 1) else 0) = 0 := by
    split
    next short =>
      rw [and_bit positive widthS small, if_neg (by omega)]
    next => exact UInt64.and_zero
  change Evaluate.signExtend t v s = _
  simp only [Evaluate.signExtend]
  rw [if_pos unset, and_mask_of_lt small, Rvalue.ofInt, and_mask_eq_word widthT]
  rcases clear with rfl | below
  · exact (twos_emod 64 v.toNat).symm
  · rw [twos_of_lt positive below]

omit widthT in
/-- A set sign bit fills the bits from `s` up to `t`. -/
theorem signExtend_constant_of_set (short : s < 64) (set : 2 ^ (s - 1) ≤ v.toNat) :
    execute (.signExtend t (.constant v s)) = .constant (v ||| (mask t &&& ~~~mask s)) t := by
  have sign : v &&& (if s < 64 then bit (s.toUInt64 - 1) else 0) ≠ 0 := by
    rw [if_pos short, UInt64.and_comm, bit_and_ne_zero positive widthS small]
    exact set
  change Evaluate.signExtend t v s = _
  simp only [Evaluate.signExtend]
  rw [if_neg sign, and_mask_of_lt small]

theorem signExtend_constant : execute (.signExtend t (.constant v s)) = .ofInt t (twos s v.toNat) ↔
    ¬(t < s ∧ s < 64 ∧ 2 ^ (s - 1) ≤ v.toNat) := by
  by_cases clear : s = 64 ∨ v.toNat < 2 ^ (s - 1)
  · simp only [signExtend_constant_of_clear positive widthS widthT small clear, true_iff]
    omega
  · have short : s < 64 := by omega
    have set : 2 ^ (s - 1) ≤ v.toNat := by omega
    have narrowing : ¬(t < s ∧ s < 64 ∧ 2 ^ (s - 1) ≤ v.toNat) ↔ s ≤ t := by omega
    rw [signExtend_constant_of_set positive widthS small short set, Rvalue.constant_eq_ofInt widthT,
      UInt64.toNat_or, twos_of_le positive set small, narrowing]
    have power : (2 : Int) ^ s ≤ 2 ^ t ↔ s ≤ t := pow_le_pow_iff_right₀ (by norm_num)
    have upper : (v.toNat : Int) < 2 ^ s := by exact_mod_cast small
    rcases Nat.lt_or_ge t s with narrow | wide
    · have high : 2 ^ t ≤ v.toNat := (Nat.pow_le_pow_right (by decide) (by omega)).trans set
      have range := Int.emod_lt_of_pos ((v.toNat : Int) - 2 ^ s) (show (0 : Int) < 2 ^ t by positivity)
      have : (2 : Int) ^ t ≤ v.toNat := by exact_mod_cast high
      rw [mask_and_not_mask_of_le widthS narrow.le, UInt64.toNat_zero, Nat.or_zero]
      omega
    · have filled : (mask t &&& ~~~mask s).toNat = 2 ^ s * (2 ^ (t - s) - 1) := by
        apply Nat.eq_of_testBit_eq
        intro i
        rw [testBit_mask_and_not_mask widthS widthT, Nat.testBit_two_pow_mul, Nat.testBit_two_pow_sub_one]
        rcases Nat.lt_or_ge i s with below | above
        · simp [Nat.not_le.mpr below]
        · have : i - s < t - s ↔ i < t := by omega
          simp [above, this]
      have product : 2 ^ s * (2 ^ (t - s) - 1) = 2 ^ t - 2 ^ s := by
        rw [Nat.mul_sub, ← pow_add, Nat.add_sub_of_le wide, mul_one]
      have larger : 2 ^ s ≤ 2 ^ t := Nat.pow_le_pow_right (by decide) wide
      rw [filled, Nat.or_comm, ← Nat.two_pow_add_eq_or_of_lt small, product]
      rw [← Int.add_emod_right, Int.emod_eq_of_lt (by omega) (by omega)]
      push_cast [larger]
      simp only [wide, iff_true]
      ring

end Resizing

/-- Resizing a constant keeps its unsigned, and its two's complement value modulo `2 ^ t`. -/
structure Resizes (s t : Nat) (v : UInt64) : Prop where
  zero : execute (.zeroExtend t (.constant v s)) = .ofInt t v.toNat
  sign : execute (.signExtend t (.constant v s)) = .ofInt t (twos s v.toNat)

/-- The `s` bit result of a selection: the bits from `off` on, `w` of them, are those of `b`, all others those of `v`. -/
def Selects (off : Nat) (v : UInt64) (s : Nat) (b : UInt64) (w : Nat) : Prop :=
  ∃ r, execute (.select off (.constant v s) (.constant b w)) = .constant r s ∧ r.toNat < 2 ^ s ∧
    ∀ i, r.toNat.testBit i =
      if off ≤ i ∧ i < off + w then b.toNat.testBit (i - off) else v.toNat.testBit i

/-- Bits of `b` beyond its size are added to those of `v`. -/
theorem testBit_select {off w : Nat} (short : off + w < 64) (v b : UInt64) (i : Nat) :
    (v % bit off.toUInt64 ||| (b <<< off.toUInt64) |||
      (v >>> (off + w).toUInt64 <<< (off + w).toUInt64)).toNat.testBit i =
      if off ≤ i ∧ i < off + w then b.toNat.testBit (i - off)
      else v.toNat.testBit i || decide (off + w ≤ i ∧ i < 64) && b.toNat.testBit (i - off) := by
  rw [UInt64.toNat_or, UInt64.toNat_or, Nat.testBit_or, Nat.testBit_or, testBit_mod_bit (by omega),
    testBit_shiftLeft (by omega), testBit_shiftLeft short, testBit_shiftRight short]
  rcases Nat.lt_or_ge i off with low | above
  · simp [low, Nat.not_le.mpr low, show ¬off + w ≤ i by omega]
  rcases Nat.lt_or_ge i (off + w) with inside | high
  · simp [above, Nat.not_lt.mpr above, inside, Nat.not_le.mpr inside, inside.trans short]
  · have wide : 64 ≤ i → v.toNat.testBit i = false := fun large =>
      Nat.testBit_lt_two_pow (v.toNat_lt.trans_le (Nat.pow_le_pow_right (by decide) large))
    have together : off + w + (i - (off + w)) = i := by omega
    rw [together]
    rcases Nat.lt_or_ge i 64 with inWord | outside
    · simp [above, Nat.not_lt.mpr above, Nat.not_lt.mpr high, high, inWord, Bool.or_comm]
    · simp [Nat.not_lt.mpr high, wide outside, Nat.not_lt.mpr outside]

theorem testBit_select_of_lt {off w : Nat} (short : off + w < 64) (v : UInt64) {b : UInt64} (smallB : b.toNat < 2 ^ w)
    (i : Nat) : (v % bit off.toUInt64 ||| (b <<< off.toUInt64) |||
      (v >>> (off + w).toUInt64 <<< (off + w).toUInt64)).toNat.testBit i =
      if off ≤ i ∧ i < off + w then b.toNat.testBit (i - off) else v.toNat.testBit i := by
  rw [testBit_select short]
  have beyond (high : off + w ≤ i) : b.toNat.testBit (i - off) = false :=
    Nat.testBit_lt_two_pow (smallB.trans_le (Nat.pow_le_pow_right (by decide) (by omega)))
  by_cases high : off + w ≤ i
  · simp [beyond high]
  · simp [high]

private theorem select_constants {off s w : Nat} {v b : UInt64} (inside : off + w ≤ s) (smallV : v.toNat < 2 ^ s)
    (smallB : b.toNat < 2 ^ w) : Selects off v s b w ↔ off + w < 64 := by
  have unfolded : execute (.select off (.constant v s) (.constant b w)) = Evaluate.select off v s b w := rfl
  constructor
  · intro holds
    obtain ⟨r, result, _⟩ := holds
    by_contra long
    rw [unfolded, Evaluate.select, if_neg long] at result
    cases result
  · intro short
    refine ⟨_, by rw [unfolded, Evaluate.select, if_pos short], ?_, testBit_select_of_lt short v smallB⟩
    apply Nat.lt_pow_two_of_testBit
    intro i large
    rw [testBit_select_of_lt short v smallB, if_neg (by omega)]
    exact Nat.testBit_lt_two_pow (smallV.trans_le (Nat.pow_le_pow_right (by decide) large))

/-- Narrowing a negative number below 64 bits leaves the high bits in place, and a field that
ends at bit 64 is not replaced. -/
theorem execute_resizing {s : Nat} (positive : 1 ≤ s) (width : s ≤ 64) {v : UInt64} (small : v.toNat < 2 ^ s) :
    (∀ t, 1 ≤ t → t ≤ 64 → (Resizes s t v ↔ ¬(t < s ∧ s < 64 ∧ 2 ^ (s - 1) ≤ v.toNat))) ∧
    ∀ off w : Nat, ∀ b : UInt64, 1 ≤ w → off + w ≤ s → b.toNat < 2 ^ w → (Selects off v s b w ↔ off + w < 64) := by
  constructor
  · intro t _ widthT
    have sign := signExtend_constant positive width widthT small
    constructor
    · intro resizes
      exact sign.mp resizes.sign
    · intro wide
      exact ⟨zeroExtend_constant widthT small, sign.mpr wide⟩
  · intro off w b _ inside smallB
    exact select_constants inside small smallB

theorem execute_resizing_byte : Resizes 8 16 0x80 ∧ Selects 4 0xff 8 0 4 :=
  ⟨((execute_resizing (by decide) (by decide) (by decide)).1 16 (by decide) (by decide)).mpr (by decide),
    ((execute_resizing (by decide) (by decide) (by decide)).2 4 4 0 (by decide) (by decide) (by decide)).mpr (by decide)⟩

/-- Narrowing the 16 bit number `0xff80` to a byte gives a byte of value `0xff80`, and a field of
64 bits at offset 0 is not replaced. -/
theorem not_resizes_narrow : ¬Resizes 16 8 0xff80 ∧ ¬Selects 0 1 64 2 64 := by
  constructor
  · intro resizes
    have wrong := resizes.sign
    revert wrong
    decide
  · intro holds
    obtain ⟨r, result, _⟩ := holds
    cases result

end Proofs.Evaluate

end Panopticon
