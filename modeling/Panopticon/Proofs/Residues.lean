import Panopticon.Proofs.Symbolic

/-! Constants may hold more than their size. Which operations look only at the bits that
their operands represent, and which take the rest of the machine word into account. -/

namespace Panopticon.Proofs.Residues
open Panopticon.Library.Word

/-- Two machine words for the same bits of one size. -/
structure Twin where
  left : UInt64
  right : UInt64
  size : Nat
  same : left.toNat % 2 ^ size = right.toNat % 2 ^ size

namespace Twin

def first (twin : Twin) : Rvalue := .constant twin.left twin.size

def second (twin : Twin) : Rvalue := .constant twin.right twin.size

def plain (value : UInt64) (size : Nat) : Twin := ⟨value, value, size, rfl⟩

/-- A word and the one with the first bit above the size added. -/
def raised (value : UInt64) (size : Nat) : Twin where
  left := value
  right := if size < 64 then value + bit size.toUInt64 else value
  size := size
  same := by
    split
    next short =>
      have divides : 2 ^ size ∣ 2 ^ 64 := pow_dvd_pow 2 short.le
      rw [UInt64.toNat_add, toNat_bit short, Nat.mod_mod_of_dvd _ divides, Nat.add_mod_right]
    next => rfl

def low (twin : Twin) : Rvalue := .constant (twin.left &&& mask twin.size) twin.size

def swap (twin : Twin) : Twin := ⟨twin.right, twin.left, twin.size, twin.same.symm⟩

private theorem low_swap (twin : Twin) : twin.swap.low = twin.low := by
  have masked : twin.right &&& mask twin.size = twin.left &&& mask twin.size := by
    rw [← UInt64.toNat_inj, toNat_and_mask, toNat_and_mask]
    exact twin.same.symm
  rw [low, low, swap, masked]

private theorem low_of_long {twin : Twin} (long : twin.size = 64) : twin.low = twin.first := by
  rw [low, first, and_mask_of_lt (by rw [long]; exact twin.left.toNat_lt)]

end Twin

/-- Constants for the same bits, or no result in both cases. -/
def SameBits : Rvalue → Rvalue → Prop
  | .undefined, .undefined => True
  | .constant v s, .constant w t => s = t ∧ v.toNat % 2 ^ s = w.toNat % 2 ^ s
  | _, _ => False

instance : DecidableRel SameBits
  | .undefined, .undefined => inferInstanceAs (Decidable True)
  | .constant v s, .constant w t => inferInstanceAs (Decidable (s = t ∧ v.toNat % 2 ^ s = w.toNat % 2 ^ s))
  | .undefined, .constant _ _ | .undefined, .var _ _ _ _ | .constant _ _, .undefined | .constant _ _, .var _ _ _ _
  | .var _ _ _ _, _ => inferInstanceAs (Decidable False)

def Sized (shape : Operation Nat) : Prop :=
  (∀ s ∈ shape.operands, 1 ≤ s ∧ s ≤ 64) ∧
    match shape with
    | .select offset s w => offset + w ≤ s
    | .load _ _ _ _ | .store _ _ _ _ _ => True
    | shape => ∀ s ∈ shape.operands, ∀ t ∈ shape.operands, s = t

/-- The operation at these sizes depends on nothing but the bits its operands represent. -/
def Represented (shape : Operation Nat) : Prop :=
  ∀ op : Operation Twin, op.lift Twin.size = shape →
    SameBits (execute (op.lift Twin.first)) (execute (op.lift Twin.second))

/-- The operations, and the sizes, at which the evaluator cuts off what is above the operands' sizes. -/
def Masks : Operation Nat → Prop
  | .divideUnsigned s _ | .modulo s _ | .shiftRightUnsigned s _ | .shiftRightSigned s _ | .lessSigned s _ => s = 64
  | .divideSigned s _ => s = 64 ∨ s = 1
  -- a machine shift takes its amount modulo 64
  | .shiftLeft s _ => 6 ≤ s
  | .select offset s w => offset + w = s
  | .phi sizes => sizes.length ≤ 1 ∨ ∀ s ∈ sizes, s = 64
  | _ => True

namespace SameBits

theorem symm {a b : Rvalue} (same : SameBits a b) : SameBits b a := by
  cases a <;> cases b <;> grind [SameBits]

theorem trans {a b c : Rvalue} (same : SameBits a b) (again : SameBits b c) : SameBits a c := by
  cases a <;> cases b <;> cases c <;> grind [SameBits]

theorem masked (v : UInt64) (s : Nat) : SameBits (.constant v s) (.constant (v &&& mask s) s) := by
  refine ⟨rfl, ?_⟩
  rw [toNat_and_mask, Nat.mod_mod]

theorem refl {op : Operation Twin} : SameBits (execute (op.lift Twin.first)) (execute (op.lift Twin.first)) := by
  have constants : ∀ rv ∈ (op.lift Twin.first).operands, rv.constant? ≠ none := by
    intro rv member
    rw [Operation.operands_lift, List.mem_map] at member
    obtain ⟨twin, -, rfl⟩ := member
    simp [Twin.first, Rvalue.constant?]
  rcases execute_constants _ constants with none | ⟨v, s, some⟩
  · rw [none]
    trivial
  · rw [some]
    exact ⟨rfl, rfl⟩

end SameBits

section Cuts

variable {s : Nat} (a b : UInt64)

theorem mask_mask (v : UInt64) : (v &&& mask s) &&& mask s = v &&& mask s := by
  rw [UInt64.and_assoc, UInt64.and_self]

theorem ofInt_emod {i j : Int} (same : i ≡ j [ZMOD 2 ^ s]) : Rvalue.ofInt s i = Rvalue.ofInt s j := by
  rw [Rvalue.ofInt, Rvalue.ofInt, word, word, same]

theorem low_modEq (v : UInt64) : (v.toNat : Int) ≡ (v &&& mask s).toNat [ZMOD 2 ^ s] := by
  rw [toNat_and_mask]
  push_cast
  exact (Int.mod_modEq _ _).symm

theorem mod_two (x : Int64) : (x % 2).toInt = 0 ∧ x.toInt % 2 = 0 ∨
    ((x % 2).toInt = 1 ∨ (x % 2).toInt = -1) ∧ x.toInt % 2 = 1 := by
  rw [Int64.toInt_mod, show (2 : Int64).toInt = 2 from rfl, Int.tmod_eq_emod]
  split <;> omega

theorem signed_one : signed 1 a = 0 ∧ a &&& mask 1 = 0 ∨ (signed 1 a = 1 ∨ signed 1 a = -1) ∧ a &&& mask 1 = 1 := by
  have parity : a.toInt64.toInt % 2 = (a &&& mask 1).toNat := by
    rw [toInt_toInt64, toNat_and_mask, ← Int.emod_emod_of_dvd _ (show (2 : Int) ∣ 2 ^ 64 by norm_num), twos_emod]
    omega
  have lowest : bit ((1 : Nat).toUInt64 - 1) &&& a = a &&& mask 1 := by
    rw [UInt64.and_comm]
    rfl
  have known := mod_two a.toInt64
  have moved := mod_two (a.toInt64 - 2)
  have shifted : (a.toInt64 - 2).toInt % 2 = a.toInt64.toInt % 2 := by
    have congruent : (a.toInt64 - 2).toInt % 2 ^ 64 = (a.toInt64.toInt - 2) % 2 ^ 64 := by
      rw [Int64.toInt_sub]
      exact_mod_cast Int.bmod_emod
    omega
  have value : signed 1 a = (if a &&& mask 1 ≠ 0 then a.toInt64 - 2 else a.toInt64) % 2 := by
    rw [← lowest]
    rfl
  rw [value]
  simp only [← Int64.toInt_inj, ← UInt64.toNat_inj, ne_eq]
  change (_ = (0 : Int) ∧ _ = 0) ∨ (_ = (1 : Int) ∨ _ = (-1 : Int)) ∧ _ = 1
  split <;> omega

private theorem divideSigned_one : SameBits (execute (.divideSigned (.constant a 1) (.constant b 1)))
    (execute (.divideSigned (.constant (a &&& mask 1) 1) (.constant (b &&& mask 1) 1))) := by
  have unmatched : ∀ v w, execute (.divideSigned (.constant v 1) (.constant w 1)) = Evaluate.divideSigned 1 v w := by
    intro v w
    rcases eq_or_ne w 0 with rfl | nonzero
    · rfl
    · exact execute_divideSigned nonzero v 1 1
  rw [unmatched, unmatched, Evaluate.divideSigned, Evaluate.divideSigned]
  rcases signed_one a with ⟨valueA, lowA⟩ | ⟨valueA | valueA, lowA⟩ <;>
    rcases signed_one b with ⟨valueB, lowB⟩ | ⟨valueB | valueB, lowB⟩
  all_goals
    rw [valueA, valueB, lowA, lowB]
    decide

private theorem select_cut {offset w : Nat} (whole : offset + w = s) (width : s ≤ 64) (positive : 1 ≤ w) :
    SameBits (execute (.select offset (.constant a s) (.constant b w)))
      (execute (.select offset (.constant (a &&& mask s) s) (.constant (b &&& mask w) w))) := by
  change SameBits (Evaluate.select offset a s b w) (Evaluate.select offset (a &&& mask s) s (b &&& mask w) w)
  unfold Evaluate.select
  split
  next short =>
    refine ⟨rfl, Nat.eq_of_testBit_eq fun i => ?_⟩
    simp only [Nat.testBit_mod_two_pow, UInt64.toNat_or, Nat.testBit_or, testBit_shiftLeft short,
      testBit_shiftLeft (show offset < 64 by omega), testBit_mod_bit (show offset < 64 by omega), toNat_and_mask]
    rcases Nat.lt_or_ge i s with below | above
    · have outside : ¬offset + w ≤ i := by omega
      have inside : i - offset < w := by omega
      simp [below, outside, inside]
    · simp [Nat.not_lt.mpr above]
  next => trivial

end Cuts

section Equal

variable {s : Nat} (width : s ≤ 64) (v w : UInt64)

include width

private theorem add_cut : execute (.add (.constant v s) (.constant w s)) =
    execute (.add (.constant (v &&& mask s) s) (.constant (w &&& mask s) s)) := by
  rw [Evaluate.add_constants width, Evaluate.add_constants width]
  exact ofInt_emod ((low_modEq v).add (low_modEq w))

private theorem subtract_cut : execute (.subtract (.constant v s) (.constant w s)) =
    execute (.subtract (.constant (v &&& mask s) s) (.constant (w &&& mask s) s)) := by
  rw [Evaluate.subtract_constants width, Evaluate.subtract_constants width]
  exact ofInt_emod ((low_modEq v).sub (low_modEq w))

private theorem multiply_cut : execute (.multiply (.constant v s) (.constant w s)) =
    execute (.multiply (.constant (v &&& mask s) s) (.constant (w &&& mask s) s)) := by
  rw [Evaluate.multiply_constants width, Evaluate.multiply_constants width]
  exact ofInt_emod ((low_modEq v).mul (low_modEq w))

private theorem shiftLeft_cut (deep : 6 ≤ s) : execute (.shiftLeft (.constant v s) (.constant w s)) =
    execute (.shiftLeft (.constant (v &&& mask s) s) (.constant (w &&& mask s) s)) := by
  change Rvalue.constant ((v <<< w) &&& mask s) s =
    .constant (((v &&& mask s) <<< (w &&& mask s)) &&& mask s) s
  have amount : w.toNat % 2 ^ s % 64 = w.toNat % 64 := Nat.mod_mod_of_dvd _ (pow_dvd_pow 2 deep)
  rw [Rvalue.constant.injEq, ← UInt64.toNat_inj]
  simp only [toNat_and_mask, UInt64.toNat_shiftLeft, Nat.shiftLeft_eq, amount,
    Nat.mod_mod_of_dvd _ (pow_dvd_pow 2 width), and_true]
  rw [Nat.mod_mul_mod]

private theorem lessUnsigned_cut : execute (.lessUnsigned (.constant v s) (.constant w s)) =
    execute (.lessUnsigned (.constant (v &&& mask s) s) (.constant (w &&& mask s) s)) := by
  have masked : ∀ u : UInt64, (if s < 64 then u &&& (bit s.toUInt64 - 1) else u) = u &&& mask s := by
    intro u
    split
    next short => rw [mask, if_pos short, bit]
    next long =>
      obtain rfl : s = 64 := by omega
      exact (and_mask_of_lt u.toNat_lt).symm
  change flag (v &&& mask s < (if s < 64 then w &&& (bit s.toUInt64 - 1) else w)) =
    flag ((v &&& mask s) &&& mask s < (if s < 64 then (w &&& mask s) &&& (bit s.toUInt64 - 1) else w &&& mask s))
  rw [masked, masked, mask_mask, mask_mask]

private theorem lessOrEqualSigned_cut (positive : 1 ≤ s) : execute (.lessOrEqualSigned (.constant v s) (.constant w s)) =
    execute (.lessOrEqualSigned (.constant (v &&& mask s) s) (.constant (w &&& mask s) s)) := by
  rcases Nat.lt_or_ge s 64 with short | long
  · exact Constants.lessOrEqualSigned_masked positive short v w
  · obtain rfl : s = 64 := by omega
    rw [and_mask_of_lt v.toNat_lt, and_mask_of_lt w.toNat_lt]

end Equal

theorem execute_binary {make : Rvalue → Rvalue → Operation Rvalue} {a b : Twin} (sizes : a.size = b.size)
    (cut : ∀ v w, execute (make (.constant v a.size) (.constant w a.size)) =
      execute (make (.constant (v &&& mask a.size) a.size) (.constant (w &&& mask a.size) a.size))) :
    execute (make a.first b.first) = execute (make a.low b.low) := by
  have known := cut a.left b.left
  rw [Twin.first, Twin.first, Twin.low, Twin.low, ← sizes]
  exact known

theorem pair_sized {s t : Nat} (widths : ∀ u ∈ [s, t], 1 ≤ u ∧ u ≤ 64)
    (sizes : ∀ u ∈ [s, t], ∀ v ∈ [s, t], u = v) : s = t ∧ 1 ≤ s ∧ s ≤ 64 :=
  ⟨sizes _ (by simp) _ (by simp), widths s (by simp)⟩

theorem pair_long {a b : Twin} (same : a.size = b.size) (long : a.size = 64) : ∀ twin ∈ [a, b], twin.size = 64 := by
  simp [← same, long]

/-- Where the evaluator masks, the operation may as well be applied to what the operands represent. -/
theorem execute_low (op : Operation Twin) (sized : Sized (op.lift Twin.size)) (masks : Masks (op.lift Twin.size)) :
    SameBits (execute (op.lift Twin.first)) (execute (op.lift Twin.low)) := by
  have whole (all : ∀ twin ∈ op.operands, twin.size = 64) :
      SameBits (execute (op.lift Twin.first)) (execute (op.lift Twin.low)) := by
    rw [op.lift_congr fun twin member => Twin.low_of_long (all twin member)]
    exact SameBits.refl
  have equal (same : execute (op.lift Twin.first) = execute (op.lift Twin.low)) :
      SameBits (execute (op.lift Twin.first)) (execute (op.lift Twin.low)) := by
    rw [← same]
    exact SameBits.refl
  obtain ⟨widths, sizes⟩ := sized
  cases op with
  | add a b =>
    obtain ⟨same, positive, width⟩ := pair_sized widths sizes
    exact equal (execute_binary same (add_cut width))
  | subtract a b =>
    obtain ⟨same, positive, width⟩ := pair_sized widths sizes
    exact equal (execute_binary same (subtract_cut width))
  | multiply a b =>
    obtain ⟨same, positive, width⟩ := pair_sized widths sizes
    exact equal (execute_binary same (multiply_cut width))
  | divideUnsigned a b =>
    obtain ⟨same, positive, width⟩ := pair_sized widths sizes
    exact whole (pair_long same masks)
  | divideSigned a b =>
    obtain ⟨same, positive, width⟩ := pair_sized widths sizes
    rcases masks with long | single
    · exact whole (pair_long same long)
    · have known := divideSigned_one a.left b.left
      rw [← single] at known
      change SameBits (execute (.divideSigned a.first b.first)) (execute (.divideSigned a.low b.low))
      rw [Twin.first, Twin.first, Twin.low, Twin.low, ← same]
      exact known
  | shiftLeft a b =>
    obtain ⟨same, positive, width⟩ := pair_sized widths sizes
    exact equal (execute_binary same (shiftLeft_cut width · · masks))
  | shiftRightUnsigned a b =>
    obtain ⟨same, positive, width⟩ := pair_sized widths sizes
    exact whole (pair_long same masks)
  | shiftRightSigned a b =>
    obtain ⟨same, positive, width⟩ := pair_sized widths sizes
    exact whole (pair_long same masks)
  | modulo a b =>
    obtain ⟨same, positive, width⟩ := pair_sized widths sizes
    exact whole (pair_long same masks)
  | and a b =>
    obtain ⟨same, positive, width⟩ := pair_sized widths sizes
    refine equal (execute_binary same fun v w => ?_)
    simp only [execute_and, mask_mask]
  | inclusiveOr a b =>
    obtain ⟨same, positive, width⟩ := pair_sized widths sizes
    refine equal (execute_binary same fun v w => ?_)
    simp only [execute_inclusiveOr, mask_mask]
  | exclusiveOr a b =>
    obtain ⟨same, positive, width⟩ := pair_sized widths sizes
    refine equal (execute_binary same fun v w => ?_)
    simp only [execute_exclusiveOr, mask_mask]
  | equal a b =>
    obtain ⟨same, positive, width⟩ := pair_sized widths sizes
    refine equal (execute_binary same fun v w => ?_)
    simp only [execute_equal, mask_mask]
  | lessOrEqualUnsigned a b =>
    obtain ⟨same, positive, width⟩ := pair_sized widths sizes
    refine equal (execute_binary same fun v w => ?_)
    simp only [execute_lessOrEqualUnsigned, mask_mask]
  | lessOrEqualSigned a b =>
    obtain ⟨same, positive, width⟩ := pair_sized widths sizes
    exact equal (execute_binary same (lessOrEqualSigned_cut width · · positive))
  | lessUnsigned a b =>
    obtain ⟨same, positive, width⟩ := pair_sized widths sizes
    exact equal (execute_binary same (lessUnsigned_cut width))
  | lessSigned a b =>
    obtain ⟨same, positive, width⟩ := pair_sized widths sizes
    exact whole (pair_long same masks)
  | zeroExtend size a =>
    apply equal
    simp only [Operation.lift, Twin.first, Twin.low, execute_zeroExtend, mask_mask]
  | signExtend size a =>
    apply equal
    exact Symbolic.signExtend_masked (widths a.size (by simp [Operation.operands, Operation.lift])).1 size a.left
  | move a =>
    apply equal
    simp only [Operation.lift, Twin.first, Twin.low, execute_move, mask_mask]
  | call a => trivial
  | initialized name size => trivial
  | select offset a b =>
    exact select_cut a.left b.left masks (widths a.size (by simp [Operation.operands, Operation.lift])).2
      (widths b.size (by simp [Operation.operands, Operation.lift])).1
  | load region endianess size a => trivial
  | store region endianess size a b => trivial
  | phi operands =>
    rcases masks with few | long
    · rcases operands with _ | ⟨a, _ | ⟨b, rest⟩⟩
      · trivial
      · change SameBits (execute (.phi [a.first])) (execute (.phi [a.low]))
        rw [execute_phi_singleton, execute_phi_singleton]
        exact SameBits.masked a.left a.size
      · simp at few
    · exact whole fun twin member => long _ (List.mem_map_of_mem member)

private theorem represented_of_masks {shape : Operation Nat} (sized : Sized shape) (masks : Masks shape) :
    Represented shape := by
  intro op same
  subst same
  have swapped : (op.lift Twin.swap).lift Twin.size = op.lift Twin.size := by
    rw [Operation.lift_lift]
    rfl
  have left := execute_low op sized masks
  have right := execute_low (op.lift Twin.swap) (by rwa [swapped]) (by rwa [swapped])
  have low : Twin.low ∘ Twin.swap = Twin.low := funext Twin.low_swap
  rw [Operation.lift_lift, Operation.lift_lift, low] at right
  exact left.trans right.symm

/-- The two words of some operand lead to different bits. -/
def Confused (op : Operation Twin) : Prop :=
  ¬SameBits (execute (op.lift Twin.first)) (execute (op.lift Twin.second))

instance : DecidablePred Confused := fun _ => inferInstanceAs (Decidable ¬_)

private theorem select_confused {offset s w : Nat} (inside : offset + w < s) (width : s ≤ 64) :
    Confused (.select offset (.plain 0 s) (.raised 0 w)) := by
  have short : offset + w < 64 := by omega
  intro same
  change SameBits (Evaluate.select offset 0 s 0 w)
    (Evaluate.select offset 0 s (if w < 64 then 0 + bit w.toUInt64 else 0) w) at same
  rw [Evaluate.select, Evaluate.select, if_pos short, if_pos short, if_pos (show w < 64 by omega),
    UInt64.zero_add] at same
  obtain ⟨-, equal⟩ := same
  have clear := congrArg (·.testBit (offset + w)) equal
  have field : offset + w - offset = w := by omega
  simp only [Nat.testBit_mod_two_pow, UInt64.toNat_or, Nat.testBit_or, testBit_shiftLeft short,
    testBit_shiftLeft (show offset < 64 by omega), testBit_mod_bit (show offset < 64 by omega), field,
    toNat_bit (show w < 64 by omega), Nat.testBit_two_pow_self] at clear
  simp [inside, short] at clear

/-- Operations that tell two words for the same `s` bits apart. -/
def telling (s : Nat) : List (Operation Twin) := [
  .divideUnsigned (.plain 1 s) (.raised 1 s),
  .modulo (.plain 1 s) (.raised 1 s),
  .shiftRightUnsigned (.plain 1 s) (.raised 0 s),
  .shiftRightSigned (.raised (bit (s - 1).toUInt64) s) (.plain s.toUInt64 s),
  .lessSigned (.raised (bit (s - 1).toUInt64) s) (.plain 0 s)]

section Confused

variable {s : Nat} (positive : 1 ≤ s)

include positive

private theorem shiftLeft_confused (shallow : s < 6) : Confused (.shiftLeft (.plain 1 s) (.raised 0 s)) := by
  revert s
  decide

variable (short : s < 64)

include short

theorem telling_confused : ∀ op ∈ telling s, Confused op := by
  revert s
  decide

private theorem divideSigned_confused (several : s ≠ 1) :
    Confused (.divideSigned (.raised (bit (s - 1).toUInt64) s) (.plain (bit (s - 1).toUInt64) s)) := by
  revert s
  decide

end Confused

private theorem phi_confused {s t : Nat} {rest : List Nat} (uniform : ∀ u ∈ s :: t :: rest, u = s) (short : s < 64) :
    Confused (.phi (.raised 0 s :: .plain 0 t :: rest.map (Twin.plain 0))) := by
  have power : bit s.toUInt64 ≠ 0 := by
    rw [ne_eq, ← UInt64.toNat_inj, toNat_bit short, UInt64.toNat_zero]
    positivity
  have equal : execute ((Operation.phi (.raised 0 s :: .plain 0 t :: rest.map (Twin.plain 0))).lift Twin.first) =
      .constant 0 s := by
    simp only [Operation.lift, List.map_cons, List.map_map, execute_phi_cons]
    apply if_pos
    simp only [List.forall_mem_cons, List.forall_mem_map, Function.comp_apply, Twin.first, Twin.raised, Twin.plain]
    exact ⟨trivial, by rw [uniform t (by simp)], fun u member => by rw [uniform u (by simp [member])]⟩
  have different : execute ((Operation.phi (.raised 0 s :: .plain 0 t :: rest.map (Twin.plain 0))).lift Twin.second) =
      .undefined := by
    simp only [Operation.lift, List.map_cons, List.map_map, execute_phi_cons]
    apply if_neg
    intro all
    have second := all (Twin.plain 0 t).second (by simp)
    rw [Twin.second, Twin.second, Rvalue.constant.injEq] at second
    exact power (by simpa [Twin.raised, Twin.plain, short] using second.1)
  intro same
  rw [equal, different] at same
  exact same

theorem long_of_represented {shape : Operation Nat} {s : Nat} (width : s ≤ 64) (represented : Represented shape)
    (op : Operation Twin) (same : op.lift Twin.size = shape) (confused : s < 64 → Confused op) : s = 64 := by
  by_contra other
  exact confused (Nat.lt_of_le_of_ne width other) (represented op same)

private theorem masks_of_represented {shape : Operation Nat} (sized : Sized shape) (represented : Represented shape) :
    Masks shape := by
  obtain ⟨widths, sizes⟩ := sized
  cases shape with
  | divideUnsigned s t =>
    obtain ⟨rfl, positive, width⟩ := pair_sized widths sizes
    exact long_of_represented width represented (.divideUnsigned (.plain 1 s) (.raised 1 s)) rfl
      fun short => telling_confused positive short _ (by simp [telling])
  | modulo s t =>
    obtain ⟨rfl, positive, width⟩ := pair_sized widths sizes
    exact long_of_represented width represented (.modulo (.plain 1 s) (.raised 1 s)) rfl
      fun short => telling_confused positive short _ (by simp [telling])
  | divideSigned s t =>
    obtain ⟨rfl, positive, width⟩ := pair_sized widths sizes
    by_cases single : s = 1
    · exact .inr single
    · left
      exact long_of_represented width represented
        (.divideSigned (.raised (bit (s - 1).toUInt64) s) (.plain (bit (s - 1).toUInt64) s)) rfl
        (divideSigned_confused positive · single)
  | shiftRightUnsigned s t =>
    obtain ⟨rfl, positive, width⟩ := pair_sized widths sizes
    exact long_of_represented width represented (.shiftRightUnsigned (.plain 1 s) (.raised 0 s)) rfl
      fun short => telling_confused positive short _ (by simp [telling])
  | shiftRightSigned s t =>
    obtain ⟨rfl, positive, width⟩ := pair_sized widths sizes
    exact long_of_represented width represented
      (.shiftRightSigned (.raised (bit (s - 1).toUInt64) s) (.plain s.toUInt64 s)) rfl
      fun short => telling_confused positive short _ (by simp [telling])
  | lessSigned s t =>
    obtain ⟨rfl, positive, width⟩ := pair_sized widths sizes
    exact long_of_represented width represented (.lessSigned (.raised (bit (s - 1).toUInt64) s) (.plain 0 s)) rfl
      fun short => telling_confused positive short _ (by simp [telling])
  | shiftLeft s t =>
    obtain ⟨rfl, positive, width⟩ := pair_sized widths sizes
    by_contra shallow
    exact shiftLeft_confused positive (Nat.lt_of_not_le shallow)
      (represented (.shiftLeft (.plain 1 s) (.raised 0 s)) rfl)
  | select offset s w =>
    have width := (widths s (by simp [Operation.operands])).2
    by_contra other
    exact select_confused (Nat.lt_of_le_of_ne sizes other) width
      (represented (.select offset (.plain 0 s) (.raised 0 w)) rfl)
  | phi operands =>
    rcases operands with _ | ⟨s, _ | ⟨t, rest⟩⟩
    · exact .inl (by simp)
    · exact .inl (by simp)
    · have uniform : ∀ u ∈ s :: t :: rest, u = s := fun u member => sizes u member s (by simp [Operation.operands])
      have width := (widths s (by simp [Operation.operands])).2
      right
      have long := long_of_represented width represented
        (.phi (.raised 0 s :: .plain 0 t :: rest.map (Twin.plain 0)))
        (by simp [Operation.lift, Twin.raised, Twin.plain, Function.comp_def])
        (phi_confused uniform)
      intro u member
      rw [uniform u member, long]
  | _ => trivial

/-- The operations at which the result depends on nothing but the represented bits. -/
theorem represented_iff {shape : Operation Nat} (sized : Sized shape) : Represented shape ↔ Masks shape :=
  ⟨masks_of_represented sized, represented_of_masks sized⟩

/-- Words for one byte, added. -/
theorem represented_iff_add : Sized (.add 8 8) ∧ Represented (.add 8 8) := by
  have sized : Sized (.add 8 8) := by simp [Sized, Operation.operands]
  exact ⟨sized, (represented_iff sized).mpr trivial⟩

/-- A sign-extended byte is not shifted like the byte. -/
theorem not_represented : ¬∀ shape, Sized shape → Represented shape := by
  intro all
  have sized : Sized (.shiftRightUnsigned 8 8) := by simp [Sized, Operation.operands]
  have same := all _ sized (.shiftRightUnsigned ⟨0x80, 0xffffffffffffff80, 8, by decide⟩ (.plain 4 8)) rfl
  revert same
  decide

end Panopticon.Proofs.Residues
