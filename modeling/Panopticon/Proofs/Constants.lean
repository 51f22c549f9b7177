import Panopticon.Proofs.Folding

/-! The evaluator on two constants of one size, which may be wider than a machine word or than their size holds.
Each operation stands for what it computes under an exact condition on the two. -/

namespace Panopticon
open Panopticon.Library.Word

namespace Proofs.Constants
open Folding

section Denotation

variable {ρ : Valuation} {x : Bits}

@[simp] theorem denotes_undefined : Rvalue.undefined.Denotes ρ x := by
  simp [Rvalue.Denotes, Rvalue.denote]

@[simp] theorem denotes_constant {v : UInt64} {s : Nat} :
    (Rvalue.constant v s).Denotes ρ x ↔ x = .ofNat s v.toNat := by
  simp [Rvalue.Denotes, Rvalue.denote]

@[simp] theorem denotes_var {name : String} {subscript : Option Nat} {offset size : Nat} :
    (Rvalue.var name subscript offset size).Denotes ρ x ↔ x = .ofNat size (ρ name subscript / 2 ^ offset) := by
  simp [Rvalue.Denotes, Rvalue.denote]

theorem denotes_flag {holds : Bool} : (flag holds).Denotes ρ x ↔ x = .flag holds := by
  cases holds <;> simp [flag, Bits.flag]

theorem constant_denotes_ofNat {u : UInt64} {s n : Nat} :
    (Rvalue.constant u s).Denotes ρ (.ofNat s n) ↔ n % 2 ^ s = u.toNat % 2 ^ s := by
  rw [denotes_constant, Bits.ofNat_eq_iff]

theorem constant_denotes_ofInt {u : UInt64} {s : Nat} {i : Int} :
    (Rvalue.constant u s).Denotes ρ (.ofInt s i) ↔ i % 2 ^ s = u.toNat % 2 ^ s := by
  rw [denotes_constant, ← Bits.ofInt_natCast, Bits.ofInt_eq_iff]

end Denotation

/-- When an operation on two constants of `s` bits is folded rightly. Operations that mask their operands
take constants that their size does not hold. -/
def ConstantsFold (f : Binary) (v w : UInt64) (s : Nat) : Prop :=
  let a := v.toNat
  let b := w.toNat
  match f with
  | .and | .inclusiveOr | .exclusiveOr | .equal | .lessOrEqualUnsigned | .lessUnsigned => True
  | .add => s ≤ 64 ∨ a + b < 2 ^ 64
  | .subtract => s ≤ 64 ∨ b ≤ a
  | .multiply => s ≤ 64 ∨ a * b % 2 ^ s < 2 ^ 64
  -- the operands are not masked
  | .divideUnsigned => b % 2 ^ s ≠ 0 → a / b % 2 ^ s = a % 2 ^ s / (b % 2 ^ s)
  | .modulo => b % 2 ^ s ≠ 0 → a % b % 2 ^ s = a % 2 ^ s % (b % 2 ^ s)
  -- they are, but the sign can go wrong
  | .divideSigned =>
    b % 2 ^ s ≠ 0 → (reading s a).tdiv (reading s b) % 2 ^ min s 64 = (twos s a).tdiv (twos s b) % 2 ^ s
  | .lessSigned => reading s a < reading s b ↔ twos s a < twos s b
  | .lessOrEqualSigned => s = 64 → (2 ^ 63 ≤ a ↔ 2 ^ 63 ≤ b)
  -- machine shifts take their amount modulo 64
  | .shiftLeft => a * 2 ^ (b % 64) % 2 ^ min s 64 = a * 2 ^ (b % 2 ^ s) % 2 ^ s
  | .shiftRightUnsigned =>
    (s ≤ b → a % 2 ^ s < 2 ^ (b % 2 ^ s)) ∧ (b < s → 2 ^ b ∣ a / 2 ^ s ∧ (b < 64 ∨ a = 0))
  | .shiftRightSigned =>
    (s ≤ b → if reading s a < 0 then -2 ^ (b % 2 ^ s) ≤ twos s a ∧ twos s a < 0 else 0 ≤ twos s a ∧ twos s a < 2 ^ (b % 2 ^ s)) ∧
    (b < s → b = 0 ∨ reading s a = twos s a ∧ (b < 64 ∨ a < 2 ^ (b % 64)))

section Arithmetic

variable {ρ : Valuation} {v w : UInt64} {s : Nat} {r : Bits}

/-- What is left of a number in a machine word and in `s` bits. -/
theorem mod_word_mod (n s : Nat) : n % 2 ^ 64 % 2 ^ s = n % 2 ^ min s 64 := by
  rcases Nat.le_total s 64 with width | wide
  · rw [min_eq_left width, Nat.mod_mod_of_dvd _ (pow_dvd_pow 2 width)]
  · have bound : n % 2 ^ 64 < 2 ^ s := (Nat.mod_lt _ (by positivity)).trans_le (Nat.pow_le_pow_right (by decide) wide)
    rw [min_eq_right wide, Nat.mod_eq_of_lt bound]

theorem mod_min_iff {n s : Nat} : n % 2 ^ s = n % 2 ^ min s 64 ↔ s ≤ 64 ∨ n % 2 ^ s < 2 ^ 64 := by
  rcases Nat.le_total s 64 with width | wide
  · simp [width]
  · rw [min_eq_right wide]
    have same : n % 2 ^ s % 2 ^ 64 = n % 2 ^ 64 := Nat.mod_mod_of_dvd _ (pow_dvd_pow 2 wide)
    rcases Nat.eq_or_lt_of_le wide with rfl | wider
    · simp
    · simp only [Nat.not_le.mpr wider, false_or]
      omega

private theorem add_denotes_iff (computes : (Operation.add (.ofNat s v.toNat) (.ofNat s w.toNat)).Computes r) :
    (execute (.add (.constant v s) (.constant w s))).Denotes ρ r ↔ ConstantsFold .add v w s := by
  obtain ⟨-, rfl⟩ := computes
  change (Rvalue.constant ((v + w) &&& mask s) s).Denotes ρ _ ↔ _
  rw [Bits.size_ofNat, constant_denotes_ofNat, toNat_and_mask, Nat.mod_mod, UInt64.toNat_add, mod_word_mod,
    Bits.value_ofNat, Bits.value_ofNat, ← Nat.add_mod, mod_min_iff, ConstantsFold]
  rcases Nat.lt_or_ge 64 s with wide | width
  · have larger : 2 ^ 65 ≤ 2 ^ s := Nat.pow_le_pow_right (by decide) wide
    have boundV := v.toNat_lt
    have boundW := w.toNat_lt
    rw [Nat.mod_eq_of_lt (by omega)]
  · simp [width]

private theorem subtract_denotes_iff (computes : (Operation.subtract (.ofNat s v.toNat) (.ofNat s w.toNat)).Computes r) :
    (execute (.subtract (.constant v s) (.constant w s))).Denotes ρ r ↔ ConstantsFold .subtract v w s := by
  obtain ⟨-, rfl⟩ := computes
  change (Rvalue.constant ((v - w) &&& mask s) s).Denotes ρ _ ↔ _
  have boundV := v.toNat_lt
  have boundW := w.toNat_lt
  have value : ((v - w).toNat : Int) % 2 ^ 64 = ((v.toNat : Int) - w.toNat) % 2 ^ 64 := by
    rw [UInt64.toNat_sub]
    push_cast [boundW.le]
    omega
  rw [Bits.size_ofNat, constant_denotes_ofInt, toNat_and_mask, Bits.value_ofNat, Bits.value_ofNat, ConstantsFold]
  push_cast
  rw [← Int.sub_emod, Int.emod_emod]
  rcases Nat.lt_or_ge 64 s with wide | width
  · have larger : (2 : Int) ^ 64 < 2 ^ s := pow_lt_pow_right₀ (by norm_num) wide
    have word := (v - w).toNat_lt
    rw [Int.emod_eq_of_lt (a := ((v - w).toNat : Int)) (by omega) (by omega)]
    simp only [Nat.not_le.mpr wide, false_or]
    rcases Nat.lt_or_ge v.toNat w.toNat with less | more
    · have wrapped : ((v.toNat : Int) - w.toNat) % 2 ^ s = v.toNat - w.toNat + 2 ^ s := by
        rw [← Int.add_emod_right, Int.emod_eq_of_lt (by omega) (by omega)]
      omega
    · rw [Int.emod_eq_of_lt (by omega) (by omega)]
      omega
  · have divides : (2 : Int) ^ s ∣ 2 ^ 64 := pow_dvd_pow 2 width
    rw [← Int.emod_emod_of_dvd _ divides, ← value, Int.emod_emod_of_dvd _ divides]
    simp [width]

private theorem multiply_denotes_iff (computes : (Operation.multiply (.ofNat s v.toNat) (.ofNat s w.toNat)).Computes r) :
    (execute (.multiply (.constant v s) (.constant w s))).Denotes ρ r ↔ ConstantsFold .multiply v w s := by
  obtain ⟨-, rfl⟩ := computes
  change (Rvalue.constant ((v * w) &&& mask s) s).Denotes ρ _ ↔ _
  rw [Bits.size_ofNat, constant_denotes_ofNat, toNat_and_mask, Nat.mod_mod, UInt64.toNat_mul, mod_word_mod,
    Bits.value_ofNat, Bits.value_ofNat, ← Nat.mul_mod, mod_min_iff, ConstantsFold]

private theorem divideUnsigned_denotes_iff
    (computes : (Operation.divideUnsigned (.ofNat s v.toNat) (.ofNat s w.toNat)).Computes r) :
    (execute (.divideUnsigned (.constant v s) (.constant w s))).Denotes ρ r ↔ ConstantsFold .divideUnsigned v w s := by
  obtain ⟨-, nonzero, rfl⟩ := computes
  rw [Bits.value_ofNat] at nonzero
  have divisor : w ≠ 0 := fun zero => nonzero (by simp [zero])
  have masked : w &&& mask s ≠ 0 := by
    rw [ne_eq, ← UInt64.toNat_inj, toNat_and_mask]
    exact nonzero
  have small : v.toNat % 2 ^ s / (w.toNat % 2 ^ s) < 2 ^ s :=
    (Nat.div_le_self _ _).trans_lt (Nat.mod_lt _ (by positivity))
  rw [execute_divideUnsigned divisor, Evaluate.divideUnsigned, if_neg masked, Bits.size_ofNat, constant_denotes_ofNat, toNat_and_mask, Nat.mod_mod, UInt64.toNat_div, Bits.value_ofNat,
    Bits.value_ofNat, Nat.mod_eq_of_lt small, ConstantsFold]
  simp only [nonzero, ne_eq, not_false_eq_true, true_implies, eq_comm]

private theorem modulo_denotes_iff (computes : (Operation.modulo (.ofNat s v.toNat) (.ofNat s w.toNat)).Computes r) :
    (execute (.modulo (.constant v s) (.constant w s))).Denotes ρ r ↔ ConstantsFold .modulo v w s := by
  obtain ⟨-, nonzero, rfl⟩ := computes
  rw [Bits.value_ofNat] at nonzero
  have divisor : w ≠ 0 := fun zero => nonzero (by simp [zero])
  have small : v.toNat % 2 ^ s % (w.toNat % 2 ^ s) < 2 ^ s := (Nat.mod_le _ _).trans_lt (Nat.mod_lt _ (by positivity))
  rw [execute_modulo divisor, Bits.size_ofNat, constant_denotes_ofNat, toNat_and_mask, Nat.mod_mod, UInt64.toNat_mod, Bits.value_ofNat,
    Bits.value_ofNat, Nat.mod_eq_of_lt small, ConstantsFold]
  simp only [nonzero, ne_eq, not_false_eq_true, true_implies, eq_comm]

end Arithmetic

section Logic

variable {ρ : Valuation} {v w : UInt64} {s : Nat} {r : Bits}

private theorem and_denotes (computes : (Operation.and (.ofNat s v.toNat) (.ofNat s w.toNat)).Computes r) :
    (execute (.and (.constant v s) (.constant w s))).Denotes ρ r := by
  obtain ⟨-, rfl⟩ := computes
  change (Rvalue.constant ((v &&& mask s) &&& (w &&& mask s)) s).Denotes ρ _
  rw [denotes_constant, UInt64.toNat_and, toNat_and_mask, toNat_and_mask]
  rfl

private theorem inclusiveOr_denotes (computes : (Operation.inclusiveOr (.ofNat s v.toNat) (.ofNat s w.toNat)).Computes r) :
    (execute (.inclusiveOr (.constant v s) (.constant w s))).Denotes ρ r := by
  obtain ⟨-, rfl⟩ := computes
  change (Rvalue.constant ((v &&& mask s) ||| (w &&& mask s)) s).Denotes ρ _
  rw [denotes_constant, UInt64.toNat_or, toNat_and_mask, toNat_and_mask]
  rfl

private theorem exclusiveOr_denotes (computes : (Operation.exclusiveOr (.ofNat s v.toNat) (.ofNat s w.toNat)).Computes r) :
    (execute (.exclusiveOr (.constant v s) (.constant w s))).Denotes ρ r := by
  obtain ⟨-, rfl⟩ := computes
  change (Rvalue.constant ((v &&& mask s) ^^^ (w &&& mask s)) s).Denotes ρ _
  rw [denotes_constant, UInt64.toNat_xor, toNat_and_mask, toNat_and_mask]
  rfl

private theorem equal_denotes (computes : (Operation.equal (.ofNat s v.toNat) (.ofNat s w.toNat)).Computes r) :
    (execute (.equal (.constant v s) (.constant w s))).Denotes ρ r := by
  obtain ⟨-, rfl⟩ := computes
  change (flag (v &&& mask s = w &&& mask s)).Denotes ρ _
  rw [denotes_flag, Bits.flag_inj, decide_eq_decide, ← UInt64.toNat_inj, toNat_and_mask, toNat_and_mask]
  rfl

private theorem lessOrEqualUnsigned_denotes
    (computes : (Operation.lessOrEqualUnsigned (.ofNat s v.toNat) (.ofNat s w.toNat)).Computes r) :
    (execute (.lessOrEqualUnsigned (.constant v s) (.constant w s))).Denotes ρ r := by
  obtain ⟨-, rfl⟩ := computes
  change (flag (v &&& mask s ≤ w &&& mask s)).Denotes ρ _
  rw [denotes_flag, Bits.flag_inj, decide_eq_decide, UInt64.le_iff_toNat_le, toNat_and_mask, toNat_and_mask]
  rfl

private theorem lessUnsigned_denotes (computes : (Operation.lessUnsigned (.ofNat s v.toNat) (.ofNat s w.toNat)).Computes r) :
    (execute (.lessUnsigned (.constant v s) (.constant w s))).Denotes ρ r := by
  obtain ⟨-, rfl⟩ := computes
  have masked : (if s < 64 then w &&& (bit s.toUInt64 - 1) else w) = w &&& mask s := by
    split
    next short => rw [mask, if_pos short, bit]
    next long => exact (and_mask_of_lt (w.toNat_lt.trans_le (Nat.pow_le_pow_right (by decide) (by omega)))).symm
  change (flag (v &&& mask s < (if s < 64 then w &&& (bit s.toUInt64 - 1) else w))).Denotes ρ _
  rw [masked, denotes_flag, Bits.flag_inj, decide_eq_decide, UInt64.lt_iff_toNat_lt, toNat_and_mask, toNat_and_mask]
  rfl

end Logic

section Signed

variable {ρ : Valuation} {v w : UInt64} {s : Nat} {r : Bits}

theorem signed_ofNat (s n : Nat) : (Bits.ofNat s n).signed = twos s n := by
  rw [Bits.signed, Bits.value_ofNat, Bits.size_ofNat, twos, twos]
  exact_mod_cast Int.emod_bmod (n : Int) (2 ^ s)

private theorem lessSigned_denotes_iff (positive : 1 ≤ s)
    (computes : (Operation.lessSigned (.ofNat s v.toNat) (.ofNat s w.toNat)).Computes r) :
    (execute (.lessSigned (.constant v s) (.constant w s))).Denotes ρ r ↔ ConstantsFold .lessSigned v w s := by
  obtain ⟨-, rfl⟩ := computes
  change (flag (signed s v < signed s w)).Denotes ρ _ ↔ _
  rw [denotes_flag, Bits.flag_inj, decide_eq_decide, Int64.lt_iff_toInt_lt, toInt_signed_eq positive,
    toInt_signed_eq positive, signed_ofNat, signed_ofNat, ConstantsFold]
  exact iff_comm

private theorem divideSigned_denotes_iff (positive : 1 ≤ s)
    (computes : (Operation.divideSigned (.ofNat s v.toNat) (.ofNat s w.toNat)).Computes r) :
    (execute (.divideSigned (.constant v s) (.constant w s))).Denotes ρ r ↔ ConstantsFold .divideSigned v w s := by
  obtain ⟨-, nonzero, rfl⟩ := computes
  rw [Bits.value_ofNat] at nonzero
  have divisor : w ≠ 0 := fun zero => nonzero (by simp [zero])
  have taken : signed s w ≠ 0 := by
    rw [ne_eq, ← Int64.toInt_inj, toInt_signed_eq positive, Int64.toInt_zero, reading_eq_zero w.toNat_lt]
    exact nonzero
  -- below 64 bits the quotient is reduced by a remainder, from 64 bits on by the machine word
  have reduced (q : UInt64) : (if s < 64 then q % bit s.toUInt64 else q).toNat % 2 ^ s = q.toNat % 2 ^ min s 64 := by
    rw [← mod_word_mod, Nat.mod_eq_of_lt q.toNat_lt]
    split
    next short => rw [mod_bit short, toNat_and_mask, Nat.mod_mod]
    next => rfl
  rw [execute_divideSigned divisor, Evaluate.divideSigned, if_neg taken, Bits.size_ofNat, constant_denotes_ofInt, signed_ofNat, signed_ofNat]
  have divides : (2 : Int) ^ min s 64 ∣ 2 ^ 64 := pow_dvd_pow 2 (min_le_right s 64)
  have bmod (x : Int) : x.bmod (2 ^ 64) % 2 ^ 64 = x % 2 ^ 64 := by exact_mod_cast Int.bmod_emod
  have value : ((if s < 64 then (signed s v / signed s w).toUInt64 % bit s.toUInt64
      else (signed s v / signed s w).toUInt64).toNat : Int) % 2 ^ s =
      (reading s v.toNat).tdiv (reading s w.toNat) % 2 ^ min s 64 := by
    norm_cast
    rw [reduced]
    push_cast
    rw [← Int.emod_emod_of_dvd ((signed s v / signed s w).toUInt64.toNat : Int) divides, toNat_toUInt64_emod,
      Int64.toInt_div, toInt_signed_eq positive, toInt_signed_eq positive, bmod, Int.emod_emod_of_dvd _ divides]
  rw [value, ConstantsFold]
  simp only [nonzero, ne_eq, not_false_eq_true, true_implies, eq_comm]

/-- Below 64 bits only the bits of the operands that their size holds are looked at. -/
theorem lessOrEqualSigned_masked (positive : 1 ≤ s) (short : s < 64) (v w : UInt64) :
    Panopticon.Evaluate.lessOrEqualSigned s v w =
      Panopticon.Evaluate.lessOrEqualSigned s (v &&& mask s) (w &&& mask s) := by
  have half : 2 ^ (s - 1) < 2 ^ s := Nat.pow_lt_pow_right (by decide) (by omega)
  have sign : (bit (s.toUInt64 - 1)).toNat < 2 ^ s := by
    rwa [toUInt64_sub_one positive, toNat_bit (by omega)]
  have below : (bit (s.toUInt64 - 1) - 1).toNat < 2 ^ s := by
    have same : bit (s.toUInt64 - 1) - 1 = mask (s - 1) := by
      rw [toUInt64_sub_one positive, mask, if_pos (by omega), bit]
    rw [same, toNat_mask (by omega)]
    omega
  simp only [Panopticon.Evaluate.lessOrEqualSigned, if_pos short, and_mask_and sign, and_mask_and below]

private theorem lessOrEqualSigned_denotes (positive : 1 ≤ s)
    (computes : (Operation.lessOrEqualSigned (.ofNat s v.toNat) (.ofNat s w.toNat)).Computes r) :
    (execute (.lessOrEqualSigned (.constant v s) (.constant w s))).Denotes ρ r ↔
      (s = 64 → (2 ^ 63 ≤ v.toNat ↔ 2 ^ 63 ≤ w.toNat)) := by
  obtain ⟨-, rfl⟩ := computes
  have flags : ∀ p : Bool, (flag p).Denotes ρ
      (.flag ((Bits.ofNat s v.toNat).signed ≤ (Bits.ofNat s w.toNat).signed)) ↔
      flag p = flag ((Bits.ofNat s v.toNat).signed ≤ (Bits.ofNat s w.toNat).signed) := by
    intro p
    rw [denotes_flag, Bits.flag_inj, Evaluate.flag_inj, eq_comm]
  obtain short | rfl | long : s < 64 ∨ s = 64 ∨ 64 < s := by omega
  · have smallV : (v &&& mask s).toNat < 2 ^ s := by
      rw [toNat_and_mask]
      exact Nat.mod_lt _ (by positivity)
    have smallW : (w &&& mask s).toNat < 2 ^ s := by
      rw [toNat_and_mask]
      exact Nat.mod_lt _ (by positivity)
    have value : execute (.lessOrEqualSigned (.constant v s) (.constant w s)) =
        flag ((Bits.ofNat s v.toNat).signed ≤ (Bits.ofNat s w.toNat).signed) := by
      change Panopticon.Evaluate.lessOrEqualSigned s v w = _
      rw [lessOrEqualSigned_masked positive short]
      have known := Evaluate.lessOrEqualSigned_constants_of_short positive short.le smallV smallW short
      rw [toNat_and_mask, toNat_and_mask] at known
      exact known
    rw [value, flags]
    simp [short.ne]
  · have exact_ := Evaluate.lessOrEqualSigned_constants positive le_rfl v.toNat_lt w.toNat_lt
    rw [signed_ofNat, signed_ofNat] at flags ⊢
    rw [Evaluate.lessOrEqualSigned_constants_of_long, flags, ← Evaluate.lessOrEqualSigned_constants_of_long, exact_]
    simp
  · have bound : 2 ^ 64 ≤ 2 ^ (s - 1) := Nat.pow_le_pow_right (by decide) (by omega)
    have natural : ∀ u : UInt64, (Bits.ofNat s u.toNat).signed = u.toNat := by
      intro u
      rw [signed_ofNat, twos_of_lt positive (u.toNat_lt.trans_le bound)]
    have value : execute (.lessOrEqualSigned (.constant v s) (.constant w s)) = flag (v.toNat ≤ w.toNat) := by
      change Panopticon.Evaluate.lessOrEqualSigned s v w = _
      have full : ∀ u : UInt64, u &&& 0xffffffffffffffff = u := fun u => and_mask_of_lt (s := 64) u.toNat_lt
      simp [Panopticon.Evaluate.lessOrEqualSigned, show ¬s < 64 by omega, full, UInt64.le_iff_toNat_le]
    rw [value, flags, Evaluate.flag_inj, decide_eq_decide, natural, natural]
    have other : s ≠ 64 := by omega
    simp [other]

end Signed

section Shifts

variable {ρ : Valuation} {v w : UInt64} {s : Nat} {r : Bits}

private theorem shiftLeft_denotes_iff (computes : (Operation.shiftLeft (.ofNat s v.toNat) (.ofNat s w.toNat)).Computes r) :
    (execute (.shiftLeft (.constant v s) (.constant w s))).Denotes ρ r ↔ ConstantsFold .shiftLeft v w s := by
  obtain ⟨-, rfl⟩ := computes
  change (Rvalue.constant ((v <<< w) &&& mask s) s).Denotes ρ _ ↔ _
  rw [Bits.size_ofNat, constant_denotes_ofNat, toNat_and_mask, Nat.mod_mod, UInt64.toNat_shiftLeft, Nat.shiftLeft_eq,
    mod_word_mod, Bits.value_ofNat, Bits.value_ofNat, Nat.mod_mul_mod, ConstantsFold]
  exact eq_comm

private theorem shiftRightUnsigned_denotes_iff (word : s < 2 ^ 64)
    (computes : (Operation.shiftRightUnsigned (.ofNat s v.toNat) (.ofNat s w.toNat)).Computes r) :
    (execute (.shiftRightUnsigned (.constant v s) (.constant w s))).Denotes ρ r ↔
      ConstantsFold .shiftRightUnsigned v w s := by
  obtain ⟨-, rfl⟩ := computes
  change (Evaluate.shiftRightUnsigned s v w).Denotes ρ _ ↔ _
  have small : v.toNat % 2 ^ s / 2 ^ (w.toNat % 2 ^ s) < 2 ^ s :=
    (Nat.div_le_self _ _).trans_lt (Nat.mod_lt _ (by positivity))
  rw [Evaluate.shiftRightUnsigned, ConstantsFold, Bits.size_ofNat, Bits.value_ofNat, Bits.value_ofNat]
  rcases Nat.lt_or_ge w.toNat s with below | above
  · have amount : w.toNat % 2 ^ s = w.toNat := Nat.mod_eq_of_lt (below.trans Nat.lt_two_pow_self)
    rw [if_neg (by rw [toUInt64_le_iff word]; omega), constant_denotes_ofNat, toNat_and_mask, Nat.mod_mod,
      Nat.mod_eq_of_lt small, amount, UInt64.toNat_shiftRight]
    simp only [Nat.not_le.mpr below, below, false_implies, true_and, true_implies]
    rcases Nat.lt_or_ge w.toNat 64 with short | long
    · have same : min (min 64 s) w.toNat = w.toNat := by omega
      rw [same, toNat_toUInt64 short, Nat.mod_eq_of_lt short, Nat.shiftRight_eq_div_pow, div_mod_iff below.le]
      simp [short]
    · have none : min (min 64 s) w.toNat = 64 := by omega
      have whole := v.toNat_lt
      have wide : 2 ^ 64 ≤ 2 ^ s := Nat.pow_le_pow_right (by decide) (by omega)
      have wide' : 2 ^ 64 ≤ 2 ^ w.toNat := Nat.pow_le_pow_right (by decide) long
      have word' : (64 : Nat).toUInt64.toNat % 64 = 0 := by decide
      rw [none, word', Nat.shiftRight_zero, Nat.mod_eq_of_lt (whole.trans_le wide), Nat.div_eq_of_lt (whole.trans_le wide'),
        Nat.div_eq_of_lt (whole.trans_le wide)]
      simp [Nat.not_lt.mpr long, eq_comm]
  · rw [if_pos ((toUInt64_le_iff word).mpr above), constant_denotes_ofNat, UInt64.toNat_zero, Nat.zero_mod,
      Nat.mod_eq_of_lt small, Nat.div_eq_zero_iff_lt (by positivity)]
    simp only [above, Nat.not_lt.mpr above, false_implies, and_true, true_implies]

/-- A quotient by a power of two is minus one or zero exactly where the number is small enough. -/
theorem shiftedOut_iff {t : Int} {k : Nat} (positive : 1 ≤ s) (low : -2 ^ (s - 1) ≤ t) (high : t < 2 ^ (s - 1)) :
    (t / 2 ^ k % 2 ^ s = 2 ^ s - 1 ↔ -2 ^ k ≤ t ∧ t < 0) ∧ (t / 2 ^ k % 2 ^ s = 0 ↔ 0 ≤ t ∧ t < 2 ^ k) := by
  have power : (1 : Int) ≤ 2 ^ k := one_le_pow₀ (by norm_num)
  have half : (2 : Int) ^ s = 2 * 2 ^ (s - 1) := by rw [← pow_succ', Nat.sub_add_cancel positive]
  have one : (1 : Int) ≤ 2 ^ (s - 1) := one_le_pow₀ (by norm_num)
  have lower : -2 ^ (s - 1) ≤ t / 2 ^ k := by
    rw [Int.le_ediv_iff_mul_le (by omega)]
    nlinarith
  have upper : t / 2 ^ k < 2 ^ (s - 1) := by
    apply Int.ediv_lt_of_lt_mul (by omega)
    nlinarith
  have minusOne : t / 2 ^ k = -1 ↔ -2 ^ k ≤ t ∧ t < 0 := by
    rw [Int.ediv_eq_iff_of_pos (by omega)]
    omega
  have zero : t / 2 ^ k = 0 ↔ 0 ≤ t ∧ t < 2 ^ k := by
    rw [Int.ediv_eq_iff_of_pos (by omega)]
    omega
  rw [← minusOne, ← zero]
  generalize t / 2 ^ k = d at lower upper
  rcases lt_or_ge d 0 with negative | nonnegative
  · rw [← Int.add_emod_right, Int.emod_eq_of_lt (by omega) (by omega)]
    omega
  · rw [Int.emod_eq_of_lt (by omega) (by omega)]
    omega

/-- Twice the weight of the sign bit only stays out of sight when nothing is shifted. -/
theorem shifted_iff {k : Nat} (inside : k ≤ s) (t : Int) :
    (t + 2 ^ s) / 2 ^ k % 2 ^ s = t / 2 ^ k % 2 ^ s ↔ k = 0 := by
  have power : (0 : Int) < 2 ^ s := by positivity
  have factors : (2 : Int) ^ s = 2 ^ (s - k) * 2 ^ k := by rw [← pow_add, Nat.sub_add_cancel inside]
  have moved : (t + 2 ^ s) / 2 ^ k = t / 2 ^ k + 2 ^ (s - k) := by
    conv_lhs => rw [factors]
    exact Int.add_mul_ediv_right _ _ (by positivity)
  rw [Int.emod_eq_emod_iff_emod_sub_eq_zero, moved, add_sub_cancel_left]
  rcases Nat.eq_zero_or_pos k with rfl | some
  · simp
  · have less : (2 : Int) ^ (s - k) < 2 ^ s := pow_lt_pow_right₀ (by norm_num) (by omega)
    have left : (0 : Int) < 2 ^ (s - k) := by positivity
    rw [Int.emod_eq_of_lt left.le less]
    omega

private theorem shiftRightSigned_wide_iff {v w s : Nat} (wide : 64 < s) (word : v < 2 ^ 64) :
    (v : Int) / 2 ^ w % 2 ^ s = reading s v / 2 ^ (w % 64) % 2 ^ 64 ↔
      w = 0 ∨ reading s v = v ∧ (w < 64 ∨ v < 2 ^ (w % 64)) := by
  have bound : v / 2 ^ w < 2 ^ 64 := (Nat.div_le_self _ _).trans_lt word
  have larger : 2 ^ 64 < 2 ^ s := Nat.pow_lt_pow_right (by decide) wide
  have whole : (v : Int) / 2 ^ w % 2 ^ s = (v / 2 ^ w : Nat) := by
    norm_cast
    exact Nat.mod_eq_of_lt (bound.trans larger)
  rw [whole, reading_of_wide wide word]
  have gone (long : 64 ≤ w) : v / 2 ^ w = 0 :=
    Nat.div_eq_of_lt (word.trans_le (Nat.pow_le_pow_right (by decide) long))
  split
  next less =>
    norm_cast
    rw [Nat.mod_eq_of_lt ((Nat.div_le_self _ _).trans_lt word)]
    rcases Nat.lt_or_ge w 64 with short | long
    · simp [short, Nat.mod_eq_of_lt short]
    · rw [gone long, eq_comm, Nat.div_eq_zero_iff_lt (by positivity)]
      simp [Nat.not_lt.mpr long, show w ≠ 0 by omega]
  next more =>
    have other : (v : Int) - 2 ^ 64 ≠ v := by omega
    simp only [other, false_and, or_false]
    rcases Nat.lt_or_ge w 64 with short | long
    · have known := shifted_iff (s := 64) short.le ((v : Int) - 2 ^ 64)
      rw [Int.sub_add_cancel] at known
      rw [← known, Nat.mod_eq_of_lt short]
      norm_cast
      rw [Nat.mod_eq_of_lt bound]
    · have power : (1 : Int) ≤ 2 ^ (w % 64) := one_le_pow₀ (by norm_num)
      have low : -2 ^ 63 ≤ ((v : Int) - 2 ^ 64) / 2 ^ (w % 64) := by
        rw [Int.le_ediv_iff_mul_le (by omega)]
        nlinarith
      have high : ((v : Int) - 2 ^ 64) / 2 ^ (w % 64) < 0 := Int.ediv_neg_of_neg_of_pos (by omega) (by omega)
      rw [gone long, ← Int.add_emod_right, Int.emod_eq_of_lt (by omega) (by omega)]
      omega

private theorem shiftRightSigned_denotes_iff (positive : 1 ≤ s) (word : s < 2 ^ 64)
    (computes : (Operation.shiftRightSigned (.ofNat s v.toNat) (.ofNat s w.toNat)).Computes r) :
    (execute (.shiftRightSigned (.constant v s) (.constant w s))).Denotes ρ r ↔ ConstantsFold .shiftRightSigned v w s := by
  obtain ⟨-, rfl⟩ := computes
  change (Evaluate.shiftRightSigned s v w).Denotes ρ _ ↔ _
  have negative : signed s v < 0 ↔ reading s v.toNat < 0 := by
    rw [Int64.lt_iff_toInt_lt, toInt_signed_eq positive, Int64.toInt_zero]
  obtain ⟨low, high⟩ := twos_bounds positive v.toNat
  obtain ⟨ones, zeros⟩ := shiftedOut_iff (k := w.toNat % 2 ^ s) positive low high
  rw [Evaluate.shiftRightSigned, ConstantsFold, Bits.size_ofNat, signed_ofNat, Bits.value_ofNat]
  rcases Nat.lt_or_ge w.toNat s with below | above
  · have amount : w.toNat % 2 ^ s = w.toNat := Nat.mod_eq_of_lt (below.trans Nat.lt_two_pow_self)
    have divides : (2 : Int) ^ min s 64 ∣ 2 ^ 64 := pow_dvd_pow 2 (min_le_right s 64)
    have shifted : ((((signed s v >>> w.toInt64).toUInt64 &&& mask s).toNat : Int)) % 2 ^ s =
        reading s v.toNat / 2 ^ (w.toNat % 64) % 2 ^ min s 64 := by
      rw [toNat_and_mask]
      norm_cast
      rw [Nat.mod_mod, ← Nat.mod_eq_of_lt (signed s v >>> w.toInt64).toUInt64.toNat_lt, mod_word_mod]
      push_cast
      rw [← Int.emod_emod_of_dvd ((signed s v >>> w.toInt64).toUInt64.toNat : Int) divides, toNat_toUInt64_emod,
        Int.emod_emod_of_dvd _ divides, toInt_shiftRight, toInt_signed_eq positive]
    rw [if_neg (by rw [toUInt64_le_iff word]; omega), constant_denotes_ofInt, shifted, amount]
    simp only [Nat.not_le.mpr below, below, false_implies, true_and, true_implies]
    rcases Nat.lt_or_ge 64 s with wide | width
    · have half : 2 ^ 64 ≤ 2 ^ (s - 1) := Nat.pow_le_pow_right (by decide) (by omega)
      rw [twos_of_lt positive (v.toNat_lt.trans_le half), min_eq_right wide.le]
      exact shiftRightSigned_wide_iff wide v.toNat_lt
    · have short : w.toNat < 64 := by omega
      rw [min_eq_left width, Nat.mod_eq_of_lt short]
      have weight : (2 : Int) ^ s ≠ 0 := by positivity
      rcases reading_cases positive width v.toNat with same | more | less
      · simp [same, short]
      · rw [more, eq_comm, shifted_iff below.le]
        simp
      · have known := shifted_iff below.le (twos s v.toNat - 2 ^ s)
        rw [Int.sub_add_cancel] at known
        rw [less, known]
        simp
  · rw [if_pos ((toUInt64_le_iff word).mpr above), constant_denotes_ofInt]
    simp only [above, Nat.not_lt.mpr above, false_implies, and_true, true_implies, negative]
    split
    next =>
      rcases Nat.lt_or_ge 64 s with wide | width
      · have half : 2 ^ 64 ≤ 2 ^ (s - 1) := Nat.pow_le_pow_right (by decide) (by omega)
        have whole : w.toNat % 2 ^ s = w.toNat := Nat.mod_eq_of_lt (w.toNat_lt.trans_le (Nat.pow_le_pow_right (by decide) wide.le))
        have natural : twos s v.toNat = v.toNat := twos_of_lt positive (v.toNat_lt.trans_le half)
        have far : (2 : Int) ^ 64 ≤ 2 ^ w.toNat := pow_le_pow_right₀ (by norm_num) (by omega)
        have bound : (v.toNat : Int) < 2 ^ 64 := by exact_mod_cast v.toNat_lt
        have larger : (2 : Int) ^ 64 < 2 ^ s := pow_lt_pow_right₀ (by norm_num) wide
        have filled : ((mask s).toNat : Int) = 2 ^ 64 - 1 := by
          rw [mask, if_neg (by omega)]
          rfl
        have none := zeros.mpr (by rw [natural, whole]; omega)
        rw [none, filled, Int.emod_eq_of_lt (by omega) (by omega), natural]
        omega
      · have ended : ((mask s).toNat : Int) % 2 ^ s = 2 ^ s - 1 := by
          have power : (1 : Int) ≤ 2 ^ s := one_le_pow₀ (by norm_num)
          rw [toNat_mask width]
          push_cast [Nat.one_le_two_pow]
          exact Int.emod_eq_of_lt (by omega) (by omega)
        rw [ended, ones]
    next => rw [UInt64.toNat_zero, Nat.cast_zero, Int.zero_emod, zeros]

end Shifts

/-- An operation on two constants stands for what it computes exactly under its condition. -/
theorem constants_denote_iff (f : Binary) {ρ : Valuation} {v w : UInt64} {s t : Nat} {r : Bits} (positive : 1 ≤ s)
    (word : s < 2 ^ 64) (computes : (f.op (Bits.ofNat s v.toNat) (.ofNat t w.toNat)).Computes r) :
    (execute (f.op (.constant v s) (.constant w t))).Denotes ρ r ↔ ConstantsFold f v w s := by
  obtain rfl : s = t := by cases f <;> exact computes.1
  cases f with
  | add => exact add_denotes_iff computes
  | subtract => exact subtract_denotes_iff computes
  | multiply => exact multiply_denotes_iff computes
  | divideUnsigned => exact divideUnsigned_denotes_iff computes
  | divideSigned => exact divideSigned_denotes_iff positive computes
  | modulo => exact modulo_denotes_iff computes
  | shiftLeft => exact shiftLeft_denotes_iff computes
  | shiftRightUnsigned => exact shiftRightUnsigned_denotes_iff word computes
  | shiftRightSigned => exact shiftRightSigned_denotes_iff positive word computes
  | and => exact iff_of_true (and_denotes computes) trivial
  | inclusiveOr => exact iff_of_true (inclusiveOr_denotes computes) trivial
  | exclusiveOr => exact iff_of_true (exclusiveOr_denotes computes) trivial
  | equal => exact iff_of_true (equal_denotes computes) trivial
  | lessOrEqualUnsigned => exact iff_of_true (lessOrEqualUnsigned_denotes computes) trivial
  | lessOrEqualSigned => exact lessOrEqualSigned_denotes positive computes
  | lessUnsigned => exact iff_of_true (lessUnsigned_denotes computes) trivial
  | lessSigned => exact lessSigned_denotes_iff positive computes

theorem computes_or_folds (f : Binary) (v w : UInt64) (s : Nat) :
    (∃ r, (f.op (Bits.ofNat s v.toNat) (.ofNat s w.toNat)).Computes r) ∨ ConstantsFold f v w s := by
  cases f with
  | divideUnsigned | divideSigned | modulo =>
    rcases eq_or_ne (w.toNat % 2 ^ s) 0 with zero | nonzero
    · exact .inr fun nonzero => absurd zero nonzero
    · exact .inl ⟨_, rfl, nonzero, rfl⟩
  | add | subtract | multiply | shiftLeft | shiftRightUnsigned | shiftRightSigned | and | inclusiveOr | exclusiveOr
  | equal | lessOrEqualUnsigned | lessOrEqualSigned | lessUnsigned | lessSigned => exact .inl ⟨_, rfl, rfl⟩

end Proofs.Constants

end Panopticon
