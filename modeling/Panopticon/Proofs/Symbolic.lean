import Panopticon.Proofs.Constants

/-! Values under an assignment to the variables: extraction of bit ranges, and what the results of the
evaluator stand for. -/

namespace Panopticon
open Panopticon.Library.Word

namespace Bits

private theorem ofNat_eq_self {x : Bits} {n : Nat} (same : n % 2 ^ x.size = x.value) : ofNat x.size n = x := ext rfl same

@[simp] theorem ofInt_zero (s : Nat) : ofInt s 0 = ofNat s 0 := ofInt_natCast s 0

end Bits

namespace Proofs.Symbolic
open Folding Constants

theorem one_of_ne_zero {t : Nat} (nonzero : (Bits.ofNat t (1 : UInt64).toNat).value ≠ 0) :
    (Bits.ofNat t (1 : UInt64).toNat).value = 1 := by
  have one : (1 : UInt64).toNat = 1 := rfl
  rw [Bits.value_ofNat, one] at nonzero ⊢
  cases t with
  | zero => simp at nonzero
  | succ t => exact Nat.mod_eq_of_lt (Nat.one_lt_two_pow (by omega))

/-- One bit wide, the constant one is minus one, and every number is its own opposite. -/
theorem divide_by_one {x : Bits} (nonzero : (Bits.ofNat x.size (1 : UInt64).toNat).value ≠ 0) :
    Bits.ofInt x.size (x.signed.tdiv (Bits.ofNat x.size (1 : UInt64).toNat).signed) = x := by
  have one := one_of_ne_zero nonzero
  have divisor : (Bits.ofNat x.size (1 : UInt64).toNat).signed = twos x.size 1 := by
    rw [Bits.signed, one, Bits.size_ofNat]
  rw [divisor]
  obtain empty | single | more : x.size = 0 ∨ x.size = 1 ∨ 2 ≤ x.size := by omega
  · rw [empty] at one
    simp at one
  · have minus : twos x.size 1 = -1 := by
      rw [single]
      decide
    rw [minus, Int.tdiv_neg, Int.tdiv_one]
    conv_rhs => rw [← Bits.ofInt_signed x]
    rw [Bits.ofInt_eq_iff, single]
    omega
  · have positive : twos x.size 1 = 1 := by
      rw [twos_of_lt (by omega) (Nat.one_lt_two_pow (by omega))]
      rfl
    rw [positive, Int.tdiv_one, Bits.ofInt_signed]

def Meets (size : Nat) (other r : Bits) : Rule → Prop
  | .unknown => True
  | .operand => r = other
  | .zero => r = .ofNat size 0
  | .one => r = .flag true

private theorem left_meets (f : Binary) {v : UInt64} {s : Nat} {y r : Bits}
    (computes : (f.op (.ofNat s v.toNat) y).Computes r) : Meets s y r (f.left v) := by
  cases f with
  | add | inclusiveOr =>
    obtain ⟨size, rfl⟩ := computes
    simp only [Binary.left, Rule.neutral]
    split
    next zero =>
      subst zero
      change Bits.ofNat s _ = y
      obtain rfl : s = y.size := size
      simp [Bits.ofNat_value]
    next => trivial
  | multiply =>
    obtain ⟨size, rfl⟩ := computes
    obtain rfl : s = y.size := size
    simp only [Binary.left, Rule.factor]
    split_ifs with zero one
    · subst zero
      change Bits.ofNat y.size _ = _
      simp
    · subst one
      change Bits.ofNat y.size _ = y
      apply Bits.ofNat_eq_self
      simp [Nat.mod_eq_of_lt y.small]
    · trivial
  | divideUnsigned | modulo =>
    obtain ⟨-, -, rfl⟩ := computes
    simp only [Binary.left, Rule.absorbing]
    split
    next zero =>
      subst zero
      change Bits.ofNat s _ = _
      simp
    next => trivial
  | divideSigned =>
    obtain ⟨-, -, rfl⟩ := computes
    simp only [Binary.left, Rule.absorbing]
    split
    next zero =>
      subst zero
      change Bits.ofInt s _ = _
      simp
    next => trivial
  | shiftLeft | shiftRightUnsigned | and =>
    obtain ⟨-, rfl⟩ := computes
    simp only [Binary.left, Rule.absorbing]
    split
    next zero =>
      subst zero
      change Bits.ofNat s _ = _
      simp
    next => trivial
  | shiftRightSigned =>
    obtain ⟨-, rfl⟩ := computes
    simp only [Binary.left, Rule.absorbing]
    split
    next zero =>
      subst zero
      change Bits.ofInt s _ = _
      simp
    next => trivial
  | lessOrEqualUnsigned =>
    obtain ⟨-, rfl⟩ := computes
    simp only [Binary.left, Rule.least]
    split
    next zero =>
      subst zero
      change Bits.flag _ = Bits.flag true
      simp
    next => trivial
  | subtract | exclusiveOr | equal | lessOrEqualSigned | lessUnsigned | lessSigned => trivial

private theorem right_meets (f : Binary) {x r : Bits} {w : UInt64} {t : Nat}
    (computes : (f.op x (.ofNat t w.toNat)).Computes r) : Meets t x r (f.right w) := by
  cases f with
  | add | inclusiveOr | shiftLeft | shiftRightUnsigned =>
    obtain ⟨-, rfl⟩ := computes
    simp only [Binary.right, Rule.neutral]
    split
    next zero =>
      subst zero
      change Bits.ofNat x.size _ = x
      simp [Bits.ofNat_value]
    next => trivial
  | subtract =>
    obtain ⟨-, rfl⟩ := computes
    simp only [Binary.right, Rule.neutral]
    split
    next zero =>
      subst zero
      change Bits.ofInt x.size _ = x
      simp [Bits.ofInt_natCast, Bits.ofNat_value]
    next => trivial
  | shiftRightSigned =>
    obtain ⟨-, rfl⟩ := computes
    simp only [Binary.right, Rule.neutral]
    split
    next zero =>
      subst zero
      change Bits.ofInt x.size _ = x
      simp [Bits.ofInt_signed]
    next => trivial
  | multiply =>
    obtain ⟨size, rfl⟩ := computes
    obtain rfl : x.size = t := size
    simp only [Binary.right, Rule.factor]
    split_ifs with zero one
    · subst zero
      change Bits.ofNat x.size _ = _
      simp
    · subst one
      change Bits.ofNat x.size _ = x
      apply Bits.ofNat_eq_self
      simp [Nat.mod_eq_of_lt x.small]
    · trivial
  | divideUnsigned =>
    obtain ⟨size, nonzero, rfl⟩ := computes
    simp only [Binary.right, Rule.neutral]
    split
    next one =>
      subst one
      change Bits.ofNat x.size _ = x
      rw [one_of_ne_zero nonzero, Nat.div_one, Bits.ofNat_value]
    next => trivial
  | divideSigned =>
    obtain ⟨size, nonzero, rfl⟩ := computes
    obtain rfl : x.size = t := size
    simp only [Binary.right, Rule.neutral]
    split
    next one =>
      subst one
      exact divide_by_one nonzero
    next => trivial
  | modulo =>
    obtain ⟨size, nonzero, rfl⟩ := computes
    obtain rfl : x.size = t := size
    simp only [Binary.right, Rule.absorbing]
    split
    next one =>
      subst one
      change Bits.ofNat x.size _ = _
      rw [one_of_ne_zero nonzero, Nat.mod_one]
    next => trivial
  | and =>
    obtain ⟨size, rfl⟩ := computes
    obtain rfl : x.size = t := size
    simp only [Binary.right, Rule.absorbing]
    split
    next zero =>
      subst zero
      change Bits.ofNat x.size _ = _
      simp
    next => trivial
  | exclusiveOr | equal | lessOrEqualUnsigned | lessOrEqualSigned | lessUnsigned | lessSigned => trivial

section Masked

variable {ρ : Valuation} {v w : UInt64} {s : Nat} {r : Bits}

theorem signExtend_masked (positive : 1 ≤ s) (t : Nat) (v : UInt64) :
    Panopticon.Evaluate.signExtend t v s = Panopticon.Evaluate.signExtend t (v &&& mask s) s := by
  have sign : (if s < 64 then bit (s.toUInt64 - 1) else 0).toNat < 2 ^ s := by
    split
    next short =>
      rw [toUInt64_sub_one positive, toNat_bit (by omega)]
      exact Nat.pow_lt_pow_right (by decide) (by omega)
    next => simp
  have twice : (v &&& mask s) &&& mask s = v &&& mask s := by
    rw [UInt64.and_assoc, UInt64.and_self]
  simp only [Panopticon.Evaluate.signExtend, and_mask_and sign, twice]

private theorem signExtend_denotes_of_small {t : Nat} (positive : 1 ≤ s) (small : v.toNat < 2 ^ s) :
    (execute (.signExtend t (.constant v s))).Denotes ρ (.ofInt t (twos s v.toNat)) ↔
      t ≤ 64 ∨ v.toNat < 2 ^ (s - 1) := by
  obtain ⟨z, value⟩ := Panopticon.Evaluate.signExtend_eq_constant t v s
  have result : execute (.signExtend t (.constant v s)) = .constant z t := value
  rw [result, denotes_constant, ← Bits.ofInt_natCast, Bits.ofInt_eq_iff]
  rcases Nat.lt_or_ge v.toNat (2 ^ (s - 1)) with clear | set
  · -- a clear sign bit adds nothing
    have unset : v &&& (if s < 64 then bit (s.toUInt64 - 1) else 0) = 0 := by
      split
      next short => rw [and_bit positive (by omega) small, if_neg (by omega)]
      next => exact UInt64.and_zero
    simp only [Panopticon.Evaluate.signExtend, if_pos unset, and_mask_of_lt small, Rvalue.constant.injEq, and_true] at value
    rw [twos_of_lt positive clear, ← value, toNat_and_mask]
    simp [clear]
  · have width : s ≤ 64 := by
      by_contra long
      have := set.trans_lt v.toNat_lt
      rw [Nat.pow_lt_pow_iff_right (by decide)] at this
      omega
    have negative := twos_of_le positive set small
    have upper : (v.toNat : Int) < 2 ^ s := by exact_mod_cast small
    have condition : t ≤ 64 ∨ v.toNat < 2 ^ (s - 1) ↔ t ≤ 64 := by omega
    rw [condition]
    rcases Nat.lt_or_ge 64 t with long | widthT
    · -- no machine word holds the bits from 64 on
      have bound : (2 : Int) ^ s ≤ 2 ^ 64 := pow_le_pow_right₀ (by norm_num) width
      have larger : (2 : Int) ^ 65 ≤ 2 ^ t := pow_le_pow_right₀ (by norm_num) (by omega)
      have word : (z.toNat : Int) < 2 ^ 64 := by exact_mod_cast z.toNat_lt
      have filled : twos s v.toNat % 2 ^ t = v.toNat - 2 ^ s + 2 ^ t := by
        rw [negative, ← Int.add_emod_right, Int.emod_eq_of_lt (by omega) (by omega)]
      rw [filled, Int.emod_eq_of_lt (by omega) (by omega)]
      omega
    · simp only [widthT, iff_true]
      obtain rfl | short : s = 64 ∨ s < 64 := by omega
      · have known := Evaluate.signExtend_constant_of_clear positive le_rfl widthT small (.inl rfl)
        rw [result, Rvalue.constant_eq_ofInt widthT] at known
        rw [known, Int.emod_emod]
      · rcases Nat.lt_or_ge t s with narrow | wide
        · have known := Evaluate.signExtend_constant_of_set positive width small short set (t := t)
          rw [mask_and_not_mask_of_le width narrow.le, UInt64.or_zero, result, Rvalue.constant.injEq] at known
          have divides : (2 : Int) ^ t ∣ 2 ^ s := pow_dvd_pow 2 narrow.le
          rw [known.1, ← Int.emod_emod_of_dvd _ divides, twos_emod, Int.emod_emod_of_dvd _ divides]
        · have known := (Evaluate.signExtend_constant positive width widthT small).mpr (by omega)
          rw [result, Rvalue.constant_eq_ofInt widthT] at known
          rw [known, Int.emod_emod]

theorem signExtend_denotes {t : Nat} (positive : 1 ≤ s)
    (computes : (Operation.signExtend t (.ofNat s v.toNat)).Computes r) :
    (execute (.signExtend t (.constant v s))).Denotes ρ r ↔ t ≤ 64 ∨ v.toNat % 2 ^ s < 2 ^ (s - 1) := by
  obtain rfl := computes
  have small : (v &&& mask s).toNat < 2 ^ s := by
    rw [toNat_and_mask]
    exact Nat.mod_lt _ (by positivity)
  have known := signExtend_denotes_of_small positive small (ρ := ρ) (t := t)
  have masked : execute (.signExtend t (.constant v s)) = execute (.signExtend t (.constant (v &&& mask s) s)) :=
    signExtend_masked positive t v
  rw [toNat_and_mask] at known
  rw [masked]
  exact known

private theorem zeroExtend_denotes {t : Nat} (computes : (Operation.zeroExtend t (.ofNat s v.toNat)).Computes r) :
    (execute (.zeroExtend t (.constant v s))).Denotes ρ r := by
  obtain rfl := computes
  change (Rvalue.constant ((v &&& mask s) &&& mask t) t).Denotes ρ _
  rw [denotes_constant, toNat_and_mask, toNat_and_mask, Bits.value_ofNat, Bits.ofNat_eq_iff, Nat.mod_mod]

private theorem move_denotes {a : Rvalue} {x : Bits} (denotes : a.Denotes ρ x) (computes : (Operation.move x).Computes r) :
    (execute (.move a)).Denotes ρ r := by
  obtain rfl := computes
  cases a with
  | constant v s =>
    change (Rvalue.constant (v &&& mask s) s).Denotes ρ _
    rw [denotes_constant] at *
    rw [denotes, toNat_and_mask, Bits.ofNat_eq_iff, Nat.mod_mod]
  | var name subscript offset size => exact denotes
  | undefined => exact denotes

/-- Bits of the field's constant beyond its size do no harm where they are not shifted out of the word and of the
other constant, or where they are set in it already. -/
def SelectFolds (off : Nat) (v : UInt64) (s : Nat) (w : UInt64) (t : Nat) : Prop :=
  off + t < 64 → ∀ i, off + t ≤ i → i < s → i < 64 → w.toNat.testBit (i - off) = true → v.toNat.testBit i = true

theorem select_denotes_iff {off t : Nat} (computes : (Operation.select off (.ofNat s v.toNat) (.ofNat t w.toNat)).Computes r) :
    (execute (.select off (.constant v s) (.constant w t))).Denotes ρ r ↔ SelectFolds off v s w t := by
  obtain ⟨inside, size, bits⟩ := computes
  simp only [Bits.size_ofNat, Bits.value_ofNat, Nat.testBit_mod_two_pow] at inside size bits
  change (Panopticon.Evaluate.select off v s w t).Denotes ρ r ↔ _
  unfold Panopticon.Evaluate.select SelectFolds
  split
  next short =>
    rw [denotes_constant]
    simp only [short, true_implies]
    constructor
    · intro same i above within word set
      have bit := bits i
      rw [same, Bits.value_ofNat, Nat.testBit_mod_two_pow, Evaluate.testBit_select short, if_neg (by omega), if_neg (by omega),
        set] at bit
      simpa only [within, above, word, and_self, decide_true, Bool.true_and, Bool.or_true, eq_comm] using bit
    · intro harmless
      refine Bits.ext size (Nat.eq_of_testBit_eq fun i => ?_)
      rw [bits, Bits.value_ofNat, Nat.testBit_mod_two_pow, Evaluate.testBit_select short]
      split
      next field => simp [show i < s by omega, show i - off < t by omega]
      next other =>
        rcases Nat.lt_or_ge i s with within | outside
        · by_cases beyond : off + t ≤ i ∧ i < 64
          · cases set : w.toNat.testBit (i - off) with
            | false => simp
            | true => simp [harmless i beyond.1 within beyond.2 set]
          · simp [beyond]
        · simp [Nat.not_lt.mpr outside]
  next long => simp [long]

private theorem select_computes {off t : Nat} (inside : off + t ≤ s) (short : off + t < 64) (v w : UInt64) :
    ∃ r, (Operation.select off (.ofNat s v.toNat) (.ofNat t w.toNat)).Computes r := by
  have small : (w &&& mask t).toNat < 2 ^ t := by
    rw [toNat_and_mask]
    exact Nat.mod_lt _ (by positivity)
  refine ⟨.ofNat s (v % bit off.toUInt64 ||| ((w &&& mask t) <<< off.toUInt64) |||
    (v >>> (off + t).toUInt64 <<< (off + t).toUInt64)).toNat, inside, rfl, fun i => ?_⟩
  simp only [Bits.value_ofNat, Bits.size_ofNat, Nat.testBit_mod_two_pow, Evaluate.testBit_select_of_lt short v small]
  split
  next field => rw [toNat_and_mask, Nat.testBit_mod_two_pow, decide_eq_true (show i < s by omega), Bool.true_and]
  next => rfl

end Masked

/-- An operation whose result, where it is a value, stands for what the operation computes on every choice of
bit-vectors its operands stand for, and has the size of it. -/
def Sound (op : Operation Rvalue) : Prop :=
  execute op ≠ .undefined → (execute op).size = op.resultSize ∧
    ∀ (ρ : Valuation) (args : Operation (Rvalue × Bits)), args.lift Prod.fst = op →
      (∀ arg ∈ args.operands, arg.1.Denotes ρ arg.2) →
      ∀ r, (args.lift Prod.snd).Computes r → (execute op).Denotes ρ r

/-- The operations the evaluator folds rightly. -/
def Folds : Operation Rvalue → Prop
  | .add (.constant v s) (.constant w _) => ConstantsFold .add v w s
  | .subtract (.constant v s) (.constant w _) => ConstantsFold .subtract v w s
  | .multiply (.constant v s) (.constant w _) => ConstantsFold .multiply v w s
  | .divideUnsigned (.constant v s) (.constant w _) => ConstantsFold .divideUnsigned v w s
  | .divideSigned (.constant v s) (.constant w _) => ConstantsFold .divideSigned v w s
  | .modulo (.constant v s) (.constant w _) => ConstantsFold .modulo v w s
  | .shiftLeft (.constant v s) (.constant w _) => ConstantsFold .shiftLeft v w s
  | .shiftRightUnsigned (.constant v s) (.constant w _) => ConstantsFold .shiftRightUnsigned v w s
  | .shiftRightSigned (.constant v s) (.constant w _) => ConstantsFold .shiftRightSigned v w s
  | .lessOrEqualSigned (.constant v s) (.constant w _) => ConstantsFold .lessOrEqualSigned v w s
  | .lessSigned (.constant v s) (.constant w _) => ConstantsFold .lessSigned v w s
  -- a slice is replaced by the lowest bits of its variable
  | .zeroExtend t (.var _ _ offset size) | .signExtend t (.var _ _ offset size) => t = 0 ∨ offset = 0 ∧ t ≤ size
  | .signExtend t (.constant v s) => t ≤ 64 ∨ v.toNat % 2 ^ s < 2 ^ (s - 1)
  | .select off (.constant v s) (.constant w t) => SelectFolds off v s w t
  | _ => True

theorem apply_denotes {rule : Rule} {ρ : Valuation} {s : Nat} {other : Rvalue} {y r : Bits} (denotes : other.Denotes ρ y)
    (meets : Meets s y r rule) : (rule.apply s other).Denotes ρ r := by
  cases rule with
  | unknown => exact denotes_undefined
  | operand =>
    obtain rfl : r = y := meets
    exact denotes
  | zero => exact denotes_constant.mpr meets
  | one => exact denotes_flag.mpr meets

/-- A binary operation stands for what it computes where it folds its constants rightly. -/
theorem binary_denotes (f : Binary) {ρ : Valuation} {a b : Rvalue} {x y r : Bits} (denotesA : a.Denotes ρ x)
    (denotesB : b.Denotes ρ y) (nonzero : a.size ≠ some 0) (sized : ∀ n ∈ a.size, n < 2 ^ 64)
    (folds : ∀ v w s t, a = .constant v s → b = .constant w t → ConstantsFold f v w s)
    (computes : (f.op x y).Computes r) : (execute (f.op a b)).Denotes ρ r := by
  cases constA : a.constant? with
  | some v =>
    obtain ⟨s, rfl⟩ := Rvalue.constant?_eq_some.mp constA
    obtain rfl := denotes_constant.mp denotesA
    cases constB : b.constant? with
    | some w =>
      obtain ⟨t, rfl⟩ := Rvalue.constant?_eq_some.mp constB
      obtain rfl := denotes_constant.mp denotesB
      have positive : 1 ≤ s := by
        rw [Rvalue.size, ne_eq, Option.some.injEq] at nonzero
        omega
      exact (constants_denote_iff f positive (sized s rfl) computes).mpr (folds v w s t rfl rfl)
    | none =>
      rw [f.execute_left v s constB]
      exact apply_denotes denotesB (left_meets f computes)
  | none =>
    cases constB : b.constant? with
    | some w =>
      obtain ⟨t, rfl⟩ := Rvalue.constant?_eq_some.mp constB
      obtain rfl := denotes_constant.mp denotesB
      rw [f.execute_right w t constA]
      exact apply_denotes denotesA (right_meets f computes)
    | none =>
      rw [f.execute_neither constA constB]
      exact denotes_undefined

@[simp] theorem lift_op (f : Binary) (m : V → W) (a b : V) : (f.op a b).lift m = f.op (m a) (m b) := by
  cases f <;> rfl

@[simp] theorem operands_op (f : Binary) (a b : V) : (f.op a b).operands = [a, b] := by
  cases f <;> rfl

private theorem folds_binary (f : Binary) {a b : Rvalue} (folds : Folds (f.op a b)) (v w : UInt64) (s t : Nat)
    (left : a = .constant v s) (right : b = .constant w t) : ConstantsFold f v w s := by
  subst left right
  cases f <;> exact folds

theorem binary_sound (f : Binary) {ρ : Valuation} {a b : Rvalue × Bits} {r : Bits} (folds : Folds (f.op a.1 b.1))
    (nonzero : ∀ rv ∈ (f.op a.1 b.1).operands, rv.size ≠ some 0)
    (sized : ∀ rv ∈ (f.op a.1 b.1).operands, ∀ n ∈ rv.size, n < 2 ^ 64)
    (denotes : ∀ arg ∈ (f.op a b).operands, arg.1.Denotes ρ arg.2) (computes : (f.op a.2 b.2).Computes r) :
    (execute (f.op a.1 b.1)).Denotes ρ r :=
  binary_denotes f (denotes a (by simp)) (denotes b (by simp)) (nonzero a.1 (by simp)) (sized a.1 (by simp))
    (folds_binary f folds) computes

/-- The lowest `t` bits of a variable are those of a slice that starts at its lowest bit and is not shorter,
and of no other slice. -/
theorem slice_low {offset size t : Nat} :
    (∀ n : Nat, n % 2 ^ t = n / 2 ^ offset % 2 ^ size % 2 ^ t) ↔ t = 0 ∨ offset = 0 ∧ t ≤ size := by
  constructor
  · intro low
    rcases Nat.eq_zero_or_pos t with zero | positive
    · exact .inl zero
    · have one := low 1
      rw [Nat.mod_eq_of_lt (Nat.one_lt_two_pow (by omega))] at one
      have start : offset = 0 := by
        by_contra later
        rw [Nat.div_eq_of_lt (Nat.one_lt_two_pow later)] at one
        simp at one
      subst start
      refine .inr ⟨rfl, ?_⟩
      by_contra short
      have power := low (2 ^ size)
      rw [Nat.mod_eq_of_lt (Nat.pow_lt_pow_right (by decide) (by omega))] at power
      simp at power
  · rintro (rfl | ⟨rfl, fits⟩) n
    · simp [Nat.mod_one]
    · rw [pow_zero, Nat.div_one, Nat.mod_mod_of_dvd _ (pow_dvd_pow 2 fits)]

theorem zeroExtend_var {ρ : Valuation} {name : String} {subscript : Option Nat} {offset size t : Nat} :
    (execute (.zeroExtend t (.var name subscript offset size))).Denotes ρ
      (.ofNat t (Bits.ofNat size (ρ name subscript / 2 ^ offset)).value) ↔
      ρ name subscript % 2 ^ t = ρ name subscript / 2 ^ offset % 2 ^ size % 2 ^ t := by
  change (Rvalue.var name subscript 0 t).Denotes ρ _ ↔ _
  rw [denotes_var, Bits.ofNat_eq_iff, Bits.value_ofNat, pow_zero, Nat.div_one, eq_comm]

private theorem signExtend_var_of_low {ρ : Valuation} {name : String} {subscript : Option Nat} {offset size t : Nat}
    (low : t = 0 ∨ offset = 0 ∧ t ≤ size) :
    (execute (.signExtend t (.var name subscript offset size))).Denotes ρ
      (.ofInt t (Bits.ofNat size (ρ name subscript / 2 ^ offset)).signed) := by
  change (Rvalue.var name subscript 0 t).Denotes ρ _
  rw [denotes_var, ← Bits.ofInt_natCast t, Bits.ofInt_eq_iff, pow_zero, Nat.div_one, Bits.signed]
  rcases low with rfl | ⟨rfl, fits⟩
  · simp
  · have divides : (2 : Int) ^ t ∣ 2 ^ size := pow_dvd_pow 2 fits
    simp only [Bits.size_ofNat, Bits.value_ofNat, pow_zero, Nat.div_one]
    rw [← Int.emod_emod_of_dvd _ divides, twos_emod]
    push_cast
    rw [Int.emod_emod, Int.emod_emod_of_dvd _ divides]

private theorem sound_of_folds {stmt : Statement} (checked : stmt.sanityCheck = .ok ())
    (sized : ∀ rv ∈ stmt.op.operands, ∀ n ∈ rv.size, n < 2 ^ 64) (folds : Folds stmt.op) :
    Sound stmt.op := by
  obtain ⟨typed, nonzero, -⟩ := sanityCheck_ok.mp checked
  intro defined
  refine ⟨(execute_sized typed).resolve_left defined, ?_⟩
  clear typed checked
  obtain ⟨assignee, op⟩ := stmt
  rintro ρ args rfl denotes r computes
  cases args with
  | add a b => exact binary_sound .add folds nonzero sized denotes computes
  | subtract a b => exact binary_sound .subtract folds nonzero sized denotes computes
  | multiply a b => exact binary_sound .multiply folds nonzero sized denotes computes
  | divideUnsigned a b => exact binary_sound .divideUnsigned folds nonzero sized denotes computes
  | divideSigned a b => exact binary_sound .divideSigned folds nonzero sized denotes computes
  | modulo a b => exact binary_sound .modulo folds nonzero sized denotes computes
  | shiftLeft a b => exact binary_sound .shiftLeft folds nonzero sized denotes computes
  | shiftRightUnsigned a b => exact binary_sound .shiftRightUnsigned folds nonzero sized denotes computes
  | shiftRightSigned a b => exact binary_sound .shiftRightSigned folds nonzero sized denotes computes
  | and a b => exact binary_sound .and folds nonzero sized denotes computes
  | inclusiveOr a b => exact binary_sound .inclusiveOr folds nonzero sized denotes computes
  | exclusiveOr a b => exact binary_sound .exclusiveOr folds nonzero sized denotes computes
  | equal a b => exact binary_sound .equal folds nonzero sized denotes computes
  | lessOrEqualUnsigned a b => exact binary_sound .lessOrEqualUnsigned folds nonzero sized denotes computes
  | lessOrEqualSigned a b => exact binary_sound .lessOrEqualSigned folds nonzero sized denotes computes
  | lessUnsigned a b => exact binary_sound .lessUnsigned folds nonzero sized denotes computes
  | lessSigned a b => exact binary_sound .lessSigned folds nonzero sized denotes computes
  | zeroExtend t a =>
    obtain ⟨a, x⟩ := a
    have denoted : a.Denotes ρ x := denotes (a, x) (by simp [Operation.operands])
    cases a with
    | undefined => exact absurd rfl defined
    | var name subscript offset size =>
      obtain rfl := denotes_var.mp denoted
      obtain rfl := computes
      exact zeroExtend_var.mpr (slice_low.mpr folds _)
    | constant v s =>
      obtain rfl := denotes_constant.mp denoted
      exact zeroExtend_denotes computes
  | signExtend t a =>
    obtain ⟨a, x⟩ := a
    have denoted : a.Denotes ρ x := denotes (a, x) (by simp [Operation.operands])
    cases a with
    | undefined => exact absurd rfl defined
    | var name subscript offset size =>
      obtain rfl := denotes_var.mp denoted
      obtain rfl := computes
      exact signExtend_var_of_low folds
    | constant v s =>
      obtain rfl := denotes_constant.mp denoted
      have positive : s ≠ 0 := by simpa [Operation.lift, Operation.operands, Rvalue.size] using nonzero
      exact (signExtend_denotes (by omega) computes).mpr folds
  | move a => exact move_denotes (denotes a (by simp [Operation.operands])) computes
  | select off a b =>
    obtain ⟨a, x⟩ := a
    obtain ⟨b, y⟩ := b
    have denotedA : a.Denotes ρ x := denotes (a, x) (by simp [Operation.operands])
    have denotedB : b.Denotes ρ y := denotes (b, y) (by simp [Operation.operands])
    cases a with
    | constant v s =>
      cases b with
      | constant w t =>
        obtain rfl := denotes_constant.mp denotedA
        obtain rfl := denotes_constant.mp denotedB
        exact (select_denotes_iff computes).mpr folds
      | undefined => exact absurd rfl defined
      | var name subscript offset size => exact absurd rfl defined
    | undefined => exact absurd rfl defined
    | var name subscript offset size => exact absurd rfl defined
  | phi operands =>
    -- all operands are the same value, so the one that is taken stands for it too
    obtain ⟨arg, member, rfl⟩ := List.mem_map.mp computes
    have denoted := denotes arg member
    have chosen := List.mem_map_of_mem (f := Prod.fst) member
    simp only [Operation.lift] at defined ⊢
    cases firsts : operands.map Prod.fst with
    | nil => simp [firsts] at chosen
    | cons first rest =>
      simp only [firsts, execute_phi_cons] at defined chosen ⊢
      split at defined
      next same =>
        rw [if_pos same, same _ chosen]
        exact denoted
      next => exact absurd rfl defined
  | call a => exact absurd rfl defined
  | initialized name size => exact absurd rfl defined
  | load region endianess size a => exact absurd rfl defined
  | store region endianess size a b => exact absurd rfl defined

private theorem denotes_constants {f : Binary} {v w : UInt64} {s t : Nat} (sound : Sound (f.op (.constant v s) (.constant w t)))
    (defined : execute (f.op (.constant v s) (.constant w t)) ≠ .undefined) (ρ : Valuation) {r : Bits}
    (computes : (f.op (Bits.ofNat s v.toNat) (.ofNat t w.toNat)).Computes r) :
    (execute (f.op (.constant v s) (.constant w t))).Denotes ρ r := by
  apply (sound defined).2 ρ (f.op (.constant v s, .ofNat s v.toNat) (.constant w t, .ofNat t w.toNat)) (by simp)
  · simp
  · simpa using computes

private theorem folds_of_constants (f : Binary) {a b : Rvalue}
    (constants : ∀ v w s t, a = .constant v s → b = .constant w t → ConstantsFold f v w s) : Folds (f.op a b) := by
  cases a with
  | constant v s =>
    cases b with
    | constant w t =>
      have known := constants v w s t rfl rfl
      cases f <;> exact known
    | _ => cases f <;> trivial
  | _ => cases f <;> trivial

theorem binary_folds (f : Binary) {a b : Rvalue} (agree : Agree a b)
    (nonzero : ∀ rv ∈ (f.op a b).operands, rv.size ≠ some 0)
    (sized : ∀ rv ∈ (f.op a b).operands, ∀ n ∈ rv.size, n < 2 ^ 64) (sound : Sound (f.op a b)) : Folds (f.op a b) := by
  apply folds_of_constants
  rintro v w s t rfl rfl
  obtain rfl : s = t := by simpa [Agree, Rvalue.size] using agree
  have positive : s ≠ 0 := by simpa [Rvalue.size] using nonzero (.constant v s) (by simp)
  have word : s < 2 ^ 64 := sized (.constant v s) (by simp) s rfl
  rcases computes_or_folds f v w s with ⟨r, computes⟩ | folds
  · apply (constants_denote_iff f (ρ := fun _ _ => 0) (by omega) word computes).mp
    by_cases defined : execute (f.op (.constant v s) (.constant w s)) = .undefined
    · rw [defined]
      exact denotes_undefined
    · exact denotes_constants sound defined _ computes
  · exact folds

theorem zeroExtend_low {name : String} {subscript : Option Nat} {offset size t : Nat}
    (sound : Sound (.zeroExtend t (.var name subscript offset size))) : t = 0 ∨ offset = 0 ∧ t ≤ size := by
  rw [← slice_low]
  intro n
  have defined : execute (.zeroExtend t (.var name subscript offset size)) ≠ .undefined := Rvalue.noConfusion
  have denotes := (sound defined).2 (fun _ _ => n)
    (.zeroExtend t (.var name subscript offset size, .ofNat size (n / 2 ^ offset))) rfl
    (by simp [Operation.operands]) _ rfl
  exact zeroExtend_var.mp denotes

private theorem signExtend_low {name : String} {subscript : Option Nat} {offset size t : Nat}
    (sound : Sound (.signExtend t (.var name subscript offset size))) : t = 0 ∨ offset = 0 ∧ t ≤ size := by
  have defined : execute (.signExtend t (.var name subscript offset size)) ≠ .undefined := Rvalue.noConfusion
  -- a variable whose slice is zero must be zero in its lowest bits
  have zero : ∀ n : Nat, n / 2 ^ offset % 2 ^ size = 0 → n % 2 ^ t = 0 := by
    intro n empty
    have denotes := (sound defined).2 (fun _ _ => n)
      (.signExtend t (.var name subscript offset size, .ofNat size (n / 2 ^ offset))) rfl
      (by simp [Operation.operands]) _ rfl
    have slice : Bits.ofNat size (n / 2 ^ offset) = .ofNat size 0 := by
      rw [Bits.ofNat_eq_iff, empty, Nat.zero_mod]
    change (Rvalue.var name subscript 0 t).Denotes _ (.ofInt t _) at denotes
    rw [denotes_var, slice, Bits.signed_zero, Bits.ofInt_zero, Bits.ofNat_eq_iff] at denotes
    simpa using denotes.symm
  by_contra high
  rcases Nat.eq_zero_or_pos offset with rfl | later
  · have power := zero (2 ^ size) (by simp)
    rw [Nat.mod_eq_of_lt (Nat.pow_lt_pow_right (by decide) (by omega))] at power
    exact absurd power (by positivity)
  · have one := zero 1 (by rw [Nat.div_eq_of_lt (Nat.one_lt_two_pow (by omega))]; simp)
    rw [Nat.mod_eq_of_lt (Nat.one_lt_two_pow (by omega))] at one
    cases one

private theorem folds_of_sound {stmt : Statement} (checked : stmt.sanityCheck = .ok ())
    (sized : ∀ rv ∈ stmt.op.operands, ∀ n ∈ rv.size, n < 2 ^ 64) (sound : Sound stmt.op) : Folds stmt.op := by
  obtain ⟨typed, nonzero, -⟩ := sanityCheck_ok.mp checked
  obtain ⟨assignee, op⟩ := stmt
  unfold Statement.typecheck at typed
  cases op with
  | add a b => exact binary_folds .add (typecheckBinop_ok.mp typed).1 nonzero sized sound
  | subtract a b => exact binary_folds .subtract (typecheckBinop_ok.mp typed).1 nonzero sized sound
  | multiply a b => exact binary_folds .multiply (typecheckBinop_ok.mp typed).1 nonzero sized sound
  | divideUnsigned a b => exact binary_folds .divideUnsigned (typecheckBinop_ok.mp typed).1 nonzero sized sound
  | divideSigned a b => exact binary_folds .divideSigned (typecheckBinop_ok.mp typed).1 nonzero sized sound
  | modulo a b => exact binary_folds .modulo (typecheckBinop_ok.mp typed).1 nonzero sized sound
  | shiftLeft a b => exact binary_folds .shiftLeft (typecheckBinop_ok.mp typed).1 nonzero sized sound
  | shiftRightUnsigned a b => exact binary_folds .shiftRightUnsigned (typecheckBinop_ok.mp typed).1 nonzero sized sound
  | shiftRightSigned a b => exact binary_folds .shiftRightSigned (typecheckBinop_ok.mp typed).1 nonzero sized sound
  | and a b => exact binary_folds .and (typecheckBinop_ok.mp typed).1 nonzero sized sound
  | inclusiveOr a b => exact binary_folds .inclusiveOr (typecheckBinop_ok.mp typed).1 nonzero sized sound
  | exclusiveOr a b => exact binary_folds .exclusiveOr (typecheckBinop_ok.mp typed).1 nonzero sized sound
  | equal a b => exact binary_folds .equal (typecheckCmpop_ok.mp typed).1 nonzero sized sound
  | lessOrEqualUnsigned a b => exact binary_folds .lessOrEqualUnsigned (typecheckCmpop_ok.mp typed).1 nonzero sized sound
  | lessOrEqualSigned a b => exact binary_folds .lessOrEqualSigned (typecheckCmpop_ok.mp typed).1 nonzero sized sound
  | lessUnsigned a b => exact binary_folds .lessUnsigned (typecheckCmpop_ok.mp typed).1 nonzero sized sound
  | lessSigned a b => exact binary_folds .lessSigned (typecheckCmpop_ok.mp typed).1 nonzero sized sound
  | zeroExtend t a =>
    cases a with
    | var name subscript offset size => exact zeroExtend_low sound
    | _ => trivial
  | signExtend t a =>
    cases a with
    | var name subscript offset size => exact signExtend_low sound
    | constant v s =>
      have positive : s ≠ 0 := by simpa [Operation.operands, Rvalue.size] using nonzero
      have computes : (Operation.signExtend t (Bits.ofNat s v.toNat)).Computes _ := rfl
      have defined : execute (.signExtend t (.constant v s)) ≠ .undefined := by
        obtain ⟨r, result⟩ := Panopticon.Evaluate.signExtend_eq_constant t v s
        change Panopticon.Evaluate.signExtend t v s ≠ .undefined
        simp [result]
      apply (signExtend_denotes (ρ := fun _ _ => 0) (by omega) computes).mp
      exact (sound defined).2 _ (.signExtend t (.constant v s, .ofNat s v.toNat)) rfl (by simp [Operation.operands]) _ rfl
    | undefined => trivial
  | select off a b =>
    cases a with
    | constant v s =>
      cases b with
      | constant w t =>
        intro short
        have inside : off + t ≤ s := by
          simp only [Rvalue.size, Option.getD_some] at typed
          by_contra outside
          simp [outside] at typed
        obtain ⟨r, computes⟩ := select_computes inside short v w
        have defined : execute (.select off (.constant v s) (.constant w t)) ≠ .undefined := by
          change Panopticon.Evaluate.select off v s w t ≠ .undefined
          simp [Panopticon.Evaluate.select, short]
        apply (select_denotes_iff (ρ := fun _ _ => 0) computes).mp _ short
        exact (sound defined).2 _ (.select off (.constant v s, .ofNat s v.toNat) (.constant w t, .ofNat t w.toNat)) rfl
          (by simp [Operation.operands]) _ computes
      | _ => trivial
    | _ => trivial
  | _ => trivial

/-- The extraction of `s` bits at `o` from a value of `n` bits: it succeeds, stands for these bits, is the value
itself when it is all of it, and can be done in two steps. -/
def Extracts (r : Rvalue) (n s o : Nat) : Prop :=
  ∃ q, r.extract s o = .ok q ∧ q.size = some s ∧
    (∀ ρ x, r.denote ρ = some x → q.denote ρ = some (.ofNat s (x.value / 2 ^ o))) ∧ (s = n → q = r) ∧
    ∀ s' o', s' + o' ≤ s → q.extract s' o' = r.extract s' (o + o')

theorem mod_div_mod {n s o : Nat} (inside : s + o ≤ n) (m : Nat) : m % 2 ^ n / 2 ^ o % 2 ^ s = m / 2 ^ o % 2 ^ s := by
  apply Nat.eq_of_testBit_eq
  intro i
  simp only [Nat.testBit_mod_two_pow, Nat.testBit_div_two_pow]
  rcases Nat.lt_or_ge i s with low | high
  · simp [low, show i + o < n by omega]
  · simp [Nat.not_lt.mpr high]

private theorem extract_error {r : Rvalue} {n : Nat} (size : r.size = some n) (s o : Nat) :
    (∃ e, r.extract s o = .error e) ↔ s = 0 ∨ n < s + o := by
  cases r with
  | undefined => cases size
  | var name subscript offset size' | constant value size' =>
    obtain rfl : size' = n := by simpa [Rvalue.size] using size
    simp only [Rvalue.extract]
    rcases Nat.eq_zero_or_pos s with rfl | positive
    · simp
    rcases Nat.lt_or_ge size' (s + o) with outside | inside
    · simp [positive.ne', Nat.not_le.mpr outside, outside]
    · simp [positive.ne', inside, Nat.not_lt.mpr inside]

theorem extract_var {name : String} {subscript : Option Nat} {offset n s o : Nat} (positive : s ≠ 0)
    (inside : s + o ≤ n) :
    (Rvalue.var name subscript offset n).extract s o = .ok (.var name subscript (offset + o) s) := by
  simp [Rvalue.extract, positive, inside]

theorem extract_constant {v : UInt64} {n s o : Nat} (positive : s ≠ 0) (inside : s + o ≤ n) :
    (Rvalue.constant v n).extract s o = .ok (.constant ((v >>> o.toUInt64) % bit s.toUInt64) s) := by
  simp [Rvalue.extract, positive, inside]

theorem toNat_extract {v : UInt64} {s o : Nat} (shortS : s < 64) (shortO : o < 64) :
    ((v >>> o.toUInt64) % bit s.toUInt64).toNat = v.toNat / 2 ^ o % 2 ^ s := by
  rw [UInt64.toNat_mod, toNat_bit shortS, UInt64.toNat_shiftRight, toNat_toUInt64 shortO, Nat.mod_eq_of_lt shortO,
    Nat.shiftRight_eq_div_pow]

private theorem extracts_var {name : String} {subscript : Option Nat} {offset n s o : Nat} (positive : 1 ≤ s)
    (inside : s + o ≤ n) : Extracts (.var name subscript offset n) n s o := by
  refine ⟨_, extract_var (by omega) inside, rfl, ?_, ?_, ?_⟩
  · rintro ρ x denoted
    obtain rfl : Bits.ofNat n (ρ name subscript / 2 ^ offset) = x := Option.some.inj denoted
    simp only [Rvalue.denote, Option.some.injEq, Bits.value_ofNat]
    rw [Bits.ofNat_eq_iff, mod_div_mod inside, Nat.div_div_eq_div_mul, ← pow_add]
  · intro whole
    obtain rfl : o = 0 := by omega
    rw [whole, Nat.add_zero]
  · intro s' o' within
    rcases Nat.eq_zero_or_pos s' with rfl | some
    · rfl
    · rw [extract_var (by omega) within, extract_var (by omega) (by omega), Nat.add_assoc]

private theorem extracts_constant {v : UInt64} {n s o : Nat} (small : v.toNat < 2 ^ n) (positive : 1 ≤ s) (short : s < 64)
    (inside : s + o ≤ n) (width : n ≤ 64) : Extracts (.constant v n) n s o := by
  have value := toNat_extract short (show o < 64 by omega) (v := v)
  refine ⟨_, extract_constant (by omega) inside, rfl, ?_, ?_, ?_⟩
  · rintro ρ x denoted
    obtain rfl : Bits.ofNat n v.toNat = x := Option.some.inj denoted
    simp only [Rvalue.denote, Option.some.injEq, Bits.value_ofNat]
    rw [Bits.ofNat_eq_iff, value, Nat.mod_mod, Nat.mod_eq_of_lt small]
  · intro whole
    obtain rfl : o = 0 := by omega
    subst whole
    rw [Rvalue.constant.injEq, ← UInt64.toNat_inj, value, pow_zero, Nat.div_one, Nat.mod_eq_of_lt small]
    exact ⟨rfl, rfl⟩
  · intro s' o' within
    rcases Nat.eq_zero_or_pos s' with rfl | some
    · rfl
    · rw [extract_constant (by omega) within, extract_constant (by omega) (by omega), Except.ok.injEq,
        Rvalue.constant.injEq, ← UInt64.toNat_inj, toNat_extract (by omega) (by omega), value,
        toNat_extract (by omega) (by omega), mod_div_mod within, Nat.div_div_eq_div_mul, ← pow_add]
      exact ⟨rfl, rfl⟩

private theorem extracts_word {v : UInt64} : Extracts (.constant v 64) 64 64 0 ↔ v = 0 := by
  have value : (Rvalue.constant v 64).extract 64 0 = .ok (.constant 0 64) := by
    rw [extract_constant (by decide) (by decide), Except.ok.injEq, Rvalue.constant.injEq]
    refine ⟨?_, rfl⟩
    rw [show bit (64 : Nat).toUInt64 = 1 by decide, ← UInt64.toNat_inj, UInt64.toNat_mod, UInt64.toNat_one, Nat.mod_one,
      UInt64.toNat_zero]
  constructor
  · rintro ⟨q, extracted, -, -, itself, -⟩
    rw [value, Except.ok.injEq] at extracted
    have same := extracted.trans (itself rfl)
    rw [Rvalue.constant.injEq] at same
    exact same.1.symm
  · rintro rfl
    refine ⟨_, value, rfl, ?_, fun _ => rfl, ?_⟩
    · rintro ρ x denoted
      obtain rfl : Bits.ofNat 64 (0 : UInt64).toNat = x := Option.some.inj denoted
      rfl
    · intro s' o' _
      rw [Nat.zero_add]

/-- Extraction is right but for the whole of a 64 bit constant. -/
theorem extract_slices {r : Rvalue} {n : Nat} (size : r.size = some n) (_positive : 1 ≤ n) (width : n ≤ 64)
    (fits : r.Fits) : (∀ s o, (∃ e, r.extract s o = .error e) ↔ s = 0 ∨ n < s + o) ∧
      ∀ s o, 1 ≤ s → s + o ≤ n → (Extracts r n s o ↔ ¬∃ v, r = .constant v 64 ∧ s = 64 ∧ v ≠ 0) := by
  refine ⟨extract_error size, ?_⟩
  intro s o positive inside
  cases r with
  | undefined => cases size
  | var name subscript offset size' =>
    obtain rfl : size' = n := by simpa [Rvalue.size] using size
    simp [extracts_var positive inside]
  | constant v size' =>
    obtain rfl : size' = n := by simpa [Rvalue.size] using size
    rcases Nat.lt_or_ge s 64 with short | long
    · simp [extracts_constant fits.2 positive short inside width, short.ne]
    · obtain ⟨rfl, rfl, rfl⟩ : s = 64 ∧ size' = 64 ∧ o = 0 := by omega
      rw [extracts_word]
      simp

/-- Extracting all bits of the 64 bit constant one gives zero. -/
theorem not_extracts_one : ¬Extracts (.constant 1 64) 64 64 0 := by
  rintro ⟨q, extracted, -, -, itself, -⟩
  rw [itself rfl] at extracted
  revert extracted
  decide

theorem extract_slices_byte :
    Extracts (.constant 0xabcd 16) 16 8 8 ∧ (Rvalue.constant 0xabcd 16).extract 8 8 = .ok (.constant 0xab 8) :=
  ⟨((extract_slices (r := .constant 0xabcd 16) rfl (by decide) (by decide) ⟨by decide, by decide⟩).2 8 8 (by decide) (by decide)).mpr (by simp),
    by decide⟩

end Proofs.Symbolic

end Panopticon
