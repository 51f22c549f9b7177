import Panopticon.Proofs.Chain

/-! Subtracting and comparing numbers of several bytes. The carry of every instruction forgets a part of
what came before. -/

namespace Panopticon.Proofs.Borrow
open Panopticon.Library Panopticon.Library.Digits Avr WriteRegister Generated Chain

/-- The carry as the instructions that subtract compute it. -/
def less (a b _ : Nat) : Nat := borrow a b 0

def stillZero (a b c z : Nat) : Nat := if z = 1 ∧ differenceDigit 256 a b c = 0 then 1 else 0

/-- The carry of a comparison after the lowest pair. -/
def compareCarry (a b c : Nat) : Nat :=
  if differenceDigit 256 a b c = a ∧ c = 1 ∨ differenceDigit 256 a b c < a then 1 else 0

/-- Equal bytes do not stand above numbers of which the first is less. -/
def Unhidden (pairs : List (Nat × Nat)) : Prop :=
  ∀ low a b high, pairs = low ++ (a, b) :: high → a = b → right 256 low ≤ left 256 low

/-- Bytes above the lowest at which a comparison sets its carry, whatever it was. -/
def Raises (a b : Nat) : Prop := 0 < b ∧ b < a ∨ a = 255 ∧ b = 255

/-- Bytes above the lowest at which it clears its carry. -/
def Lowers (a b : Nat) : Prop := a = 0 ∧ b = 0 ∨ a < b ∧ b < 255

instance (a b : Nat) : Decidable (Raises a b) := inferInstanceAs (Decidable (_ ∨ _))
instance (a b : Nat) : Decidable (Lowers a b) := inferInstanceAs (Decidable (_ ∨ _))

/-- The highest bytes that decide, the lowest if no others do, set the carry exactly where an even number of
equal bytes stands above them: each of these turns it over. -/
def Pending (pairs : List (Nat × Nat)) : Prop :=
  ∃ below a b above, pairs = below ++ (a, b) :: above ∧ (below = [] ∨ Raises a b ∨ Lowers a b) ∧
    (∀ pair ∈ above, ¬Raises pair.1 pair.2 ∧ ¬Lowers pair.1 pair.2) ∧
    ((if below = [] then a < b else Raises a b) ↔ Even (above.countP fun pair => pair.1 = pair.2))

/-- The numbers are one byte long, or the highest bytes make up for what stands below them. -/
def Comparable (pairs : List (Nat × Nat)) : Prop :=
  ∀ low a b, pairs = low ++ [(a, b)] → low ≠ [] →
    (Pending low → b = 255 ∧ 0 < a ∧ a < 255 ∨ a = 255 ∧ b = 255 ∧ left 256 low < right 256 low ∨
      a = b ∧ b < 255 ∧ right 256 low < left 256 low) ∧
    (¬Pending low → b = 0 ∧ (0 < a ∨ left 256 low = right 256 low))

def Bytes (pairs : List (Nat × Nat)) : Prop := ∀ pair ∈ pairs, pair.1 < 256 ∧ pair.2 < 256

section Digits

variable {pairs low high : List (Nat × Nat)} {a b c z : Nat}

private theorem tells_difference (small : Bytes pairs) : Tells (differenceDigit 256) pairs := by
  intro pair member c bit d bit' same
  have bounds := small pair member
  simp only [differenceDigit] at same
  omega

theorem less_le (a b c : Nat) : less a b c ≤ 1 := borrow_le a b 0

private theorem less_eq_iff (bit : c ≤ 1) : less a b c = borrow a b c ↔ (a = b → c = 0) := by
  unfold less borrow
  split <;> split <;> omega

private theorem ripple_less_iff (small : Bytes pairs) :
    ripple (differenceDigit 256) less 0 pairs = ripple (differenceDigit 256) borrow 0 pairs ↔ Unhidden pairs := by
  rw [ripple_eq_iff (tells_difference small) less_le borrow_le]
  refine forall_congr' fun low => forall_congr' fun a => forall_congr' fun b => forall_congr' fun high => ?_
  refine forall_congr' fun split => ?_
  have below : Bytes low := fun pair member => small pair (split ▸ List.mem_append_left _ member)
  have bit : (ripple (differenceDigit 256) borrow 0 low).2 ≤ 1 := carry_le borrow_le (Nat.zero_le 1) low
  rw [less_eq_iff bit, (difference_eq (by omega) below).2]
  refine forall_congr' fun _ => ?_
  split <;> omega

private theorem settle_stillZero (bit : z ≤ 1) : settle less stillZero c z pairs =
    if z = 1 ∧ Nat.ofDigits 256 (ripple (differenceDigit 256) less c pairs).1 = 0 then 1 else 0 := by
  induction pairs generalizing c z with
  | nil =>
    simp only [settle, ripple, Nat.ofDigits_nil, and_true]
    split <;> omega
  | cons pair rest ih =>
    obtain ⟨a, b⟩ := pair
    have bit' : stillZero a b c z ≤ 1 := by
      unfold stillZero
      split <;> omega
    rw [settle, ih bit', ripple, Nat.ofDigits_cons]
    unfold stillZero
    split <;> split <;> split <;> simp_all

theorem compare_high (small : Bytes (low ++ [(a, b)])) :
    (left 256 (low ++ [(a, b)]) < right 256 (low ++ [(a, b)]) ↔ a < b ∨ a = b ∧ left 256 low < right 256 low) ∧
    (left 256 (low ++ [(a, b)]) = right 256 (low ++ [(a, b)]) ↔ a = b ∧ left 256 low = right 256 low) := by
  have below : Bytes low := fun pair member => small pair (List.mem_append_left _ member)
  have boundA := left_lt (by omega) below
  have boundB := right_lt (by omega) below
  simp only [left, right, List.map_append, List.map_cons, List.map_nil, Nat.ofDigits_append, List.length_map,
    Nat.ofDigits_singleton] at boundA boundB ⊢
  generalize Nat.ofDigits 256 (low.map Prod.fst) = u at boundA ⊢
  generalize Nat.ofDigits 256 (low.map Prod.snd) = v at boundB ⊢
  generalize 256 ^ low.length = base at boundA boundB ⊢
  rcases lt_trichotomy a b with smaller | same | larger
  · have step : base * (a + 1) ≤ base * b := Nat.mul_le_mul_left base smaller
    rw [Nat.mul_add] at step
    omega
  · rw [same]
    omega
  · have step : base * (b + 1) ≤ base * a := Nat.mul_le_mul_left base larger
    rw [Nat.mul_add] at step
    omega

theorem compareCarry_le (a b c : Nat) : compareCarry a b c ≤ 1 := by
  unfold compareCarry
  split <;> omega

theorem compareCarry_eq (small : a < 256) (small' : b < 256) (bit : c ≤ 1) : compareCarry a b c =
    if c = 0 ∧ 0 < b ∧ b ≤ a ∨ c = 1 ∧ (b = 255 ∨ b < a) then 1 else 0 := by
  have holds : differenceDigit 256 a b c = a ∧ c = 1 ∨ differenceDigit 256 a b c < a ↔
      c = 0 ∧ 0 < b ∧ b ≤ a ∨ c = 1 ∧ (b = 255 ∨ b < a) := by
    simp only [differenceDigit]
    omega
  simp only [compareCarry, holds]

private theorem compareCarry_decisive (small : a < 256) (small' : b < 256) (bit : c ≤ 1) (decisive : Raises a b ∨ Lowers a b) :
    compareCarry a b c = (decide (Raises a b)).toNat := by
  rw [compareCarry_eq small small' bit]
  unfold Raises Lowers at decisive
  by_cases raises : Raises a b
  · rw [decide_eq_true raises, if_pos, Bool.toNat_true]
    unfold Raises at raises
    omega
  · rw [decide_eq_false raises, if_neg, Bool.toNat_false]
    unfold Raises at raises
    omega

private theorem compareCarry_undecided (small : a < 256) (small' : b < 256) (raises : ¬Raises a b) (lowers : ¬Lowers a b)
    (bit : Bool) : compareCarry a b bit.toNat = (if a = b then !bit else bit).toNat := by
  rw [compareCarry_eq small small' (Bool.toNat_le bit)]
  unfold Raises at raises
  unfold Lowers at lowers
  by_cases same : a = b
  · rw [if_pos same]
    cases bit with
    | false => exact if_pos (by simp; omega)
    | true => exact if_neg (by simp; omega)
  · rw [if_neg same]
    cases bit with
    | false => exact if_neg (by simp; omega)
    | true => exact if_pos (by simp; omega)

theorem ripple_undecided {digit : Nat → Nat → Nat → Nat} {above : List (Nat × Nat)} (small : Bytes above)
    (undecided : ∀ pair ∈ above, ¬Raises pair.1 pair.2 ∧ ¬Lowers pair.1 pair.2) (bit : Bool) :
    (ripple digit compareCarry bit.toNat above).2 = 1 ↔ (bit = true ↔ Even (above.countP fun pair => pair.1 = pair.2)) := by
  induction above generalizing bit with
  | nil => cases bit <;> simp [ripple]
  | cons pair rest ih =>
    obtain ⟨a, b⟩ := pair
    obtain ⟨smallA, smallB⟩ := small (a, b) (List.mem_cons_self ..)
    obtain ⟨raises, lowers⟩ := undecided (a, b) (List.mem_cons_self ..)
    have later := ih (fun pair member => small pair (List.mem_cons_of_mem _ member))
      fun pair member => undecided pair (List.mem_cons_of_mem _ member)
    rw [ripple, compareCarry_undecided smallA smallB raises lowers, later, List.countP_cons]
    by_cases same : a = b
    · simp only [same, if_true, decide_true, Nat.even_add_one]
      cases bit <;> simp
    · simp [same]

private theorem exists_decisive (filled : pairs ≠ []) : ∃ below a b above, pairs = below ++ (a, b) :: above ∧
    (below = [] ∨ Raises a b ∨ Lowers a b) ∧ ∀ pair ∈ above, ¬Raises pair.1 pair.2 ∧ ¬Lowers pair.1 pair.2 := by
  induction pairs using List.reverseRecOn with
  | nil => exact absurd rfl filled
  | append_singleton rest pair ih =>
    obtain ⟨a, b⟩ := pair
    by_cases last : rest = [] ∨ Raises a b ∨ Lowers a b
    · exact ⟨rest, a, b, [], rfl, last, by simp⟩
    · obtain ⟨longer, quiet⟩ := not_or.mp last
      obtain ⟨below, x, y, above, rfl, decisive, undecided⟩ := ih longer
      refine ⟨below, x, y, above ++ [(a, b)], by simp, decisive, fun pair member => ?_⟩
      rcases List.mem_append.mp member with inside | added
      · exact undecided pair inside
      · rw [List.mem_singleton.mp added]
        exact not_or.mp quiet

private theorem borrow_toNat (a b : Nat) : borrow a b 0 = (decide (a < b)).toNat := by
  by_cases less : a < b <;> simp [borrow, less]

theorem carry_decisive {digit : Nat → Nat → Nat → Nat} {below above : List (Nat × Nat)} {x y : Nat}
    (small : Bytes ((a, b) :: high)) (split : (a, b) :: high = below ++ (x, y) :: above)
    (decisive : below = [] ∨ Raises x y ∨ Lowers x y)
    (undecided : ∀ pair ∈ above, ¬Raises pair.1 pair.2 ∧ ¬Lowers pair.1 pair.2) :
    (ripple digit compareCarry (borrow a b 0) high).2 = 1 ↔
      ((if below = [] then x < y else Raises x y) ↔ Even (above.countP fun pair => pair.1 = pair.2)) := by
  have smallAbove : Bytes above := fun pair member => small pair (by simp [split, member])
  cases below with
  | nil =>
    obtain ⟨same, rfl⟩ := List.cons.inj split
    obtain ⟨rfl, rfl⟩ := Prod.mk.inj same
    rw [borrow_toNat, ripple_undecided smallAbove undecided]
    simp
  | cons first below =>
    obtain ⟨rfl, rest⟩ := List.cons.inj split
    obtain ⟨smallX, smallY⟩ := small (x, y) (by simp [split])
    have carried : (ripple digit compareCarry (borrow a b 0) below).2 ≤ 1 := carry_le compareCarry_le (borrow_le a b 0) below
    have decided := compareCarry_decisive smallX smallY carried (decisive.resolve_left (List.cons_ne_nil _ _))
    rw [rest, List.append_eq, ripple_append, ripple, decided, ripple_undecided smallAbove undecided]
    simp

private theorem pending_iff {digit : Nat → Nat → Nat → Nat} (small : Bytes ((a, b) :: high)) :
    (ripple digit compareCarry (borrow a b 0) high).2 = 1 ↔ Pending ((a, b) :: high) := by
  constructor
  · intro set
    obtain ⟨below, x, y, above, split, decisive, undecided⟩ := exists_decisive (List.cons_ne_nil (a, b) high)
    exact ⟨below, x, y, above, split, decisive, undecided, (carry_decisive small split decisive undecided).mp set⟩
  · intro pending
    obtain ⟨below, x, y, above, split, decisive, undecided, even⟩ := pending
    exact (carry_decisive small split decisive undecided).mpr even

theorem ite_eq_one_iff (p : Prop) [Decidable p] : (if p then 1 else 0) = 1 ↔ p := by
  by_cases holds : p <;> simp [holds]

private theorem borrow_eq_one_iff (a b : Nat) : borrow a b 0 = 1 ↔ a < b := ite_eq_one_iff (a < b)

theorem isZero_eq_one_iff (n : Nat) : isZero n = 1 ↔ n = 0 := ite_eq_one_iff (n = 0)

private theorem compare_last (small : Bytes (low ++ [(a, b)])) (bit : c ≤ 1) :
    ((compareCarry a b c = 1 ↔ left 256 (low ++ [(a, b)]) < right 256 (low ++ [(a, b)])) ∧
      (isZero (differenceDigit 256 a b c) = 1 ↔ left 256 (low ++ [(a, b)]) = right 256 (low ++ [(a, b)]))) ↔
    (c = 1 → b = 255 ∧ 0 < a ∧ a < 255 ∨ a = 255 ∧ b = 255 ∧ left 256 low < right 256 low ∨
      a = b ∧ b < 255 ∧ right 256 low < left 256 low) ∧
    (¬c = 1 → b = 0 ∧ (0 < a ∨ left 256 low = right 256 low)) := by
  obtain ⟨smallA, smallB⟩ := small (a, b) (by simp)
  dsimp only at smallA smallB
  rw [(compare_high small).1, (compare_high small).2]
  generalize left 256 low = u
  generalize right 256 low = v
  have digit := differenceDigit_add smallA smallB bit
  have bound : differenceDigit 256 a b c < 256 := differenceDigit_lt (by decide) a b _
  rw [isZero_eq_one_iff, compareCarry_eq smallA smallB bit]
  generalize differenceDigit 256 a b c = d at digit bound ⊢
  unfold borrow at digit
  rcases Nat.le_one_iff_eq_zero_or_eq_one.mp bit with rfl | rfl
  · simp only [zero_ne_one, false_implies, not_false_eq_true, true_implies, true_and, false_and, or_false]
    split at digit <;> split <;> omega
  · simp only [one_ne_zero, not_true_eq_false, false_implies, true_implies, true_and, false_and, false_or, and_true]
    split at digit <;> split <;> omega

private theorem settle_append {carry : Nat → Nat → Nat → Nat} {equal : Nat → Nat → Nat → Nat → Nat} (digit : Nat → Nat → Nat → Nat)
    (low high : List (Nat × Nat)) : settle carry equal c z (low ++ high) =
      settle carry equal (ripple digit carry c low).2 (settle carry equal c z low) high := by
  induction low generalizing c z with
  | nil => rfl
  | cons pair rest ih => exact ih

private theorem compares_iff {digit : Nat → Nat → Nat → Nat} (small : Bytes ((a, b) :: high)) :
    (((ripple digit compareCarry (borrow a b 0) high).2 = 1 ↔ left 256 ((a, b) :: high) < right 256 ((a, b) :: high)) ∧
      (settle compareCarry (fun a b c _ => isZero (differenceDigit 256 a b c)) (borrow a b 0)
        (isZero (differenceDigit 256 a b 0)) high = 1 ↔ left 256 ((a, b) :: high) = right 256 ((a, b) :: high))) ↔
    Comparable ((a, b) :: high) := by
  rcases List.eq_nil_or_concat' high with rfl | longer
  · have alone : Comparable [(a, b)] := by
      intro low a' b' split more
      have lengths := congrArg List.length split
      rw [List.length_append, List.length_singleton, List.length_singleton] at lengths
      exact absurd (List.length_eq_zero_iff.mp (by omega)) more
    obtain ⟨smallA, smallB⟩ := small (a, b) (List.mem_cons_self ..)
    dsimp only at smallA smallB
    have digit := differenceDigit_add smallA smallB (Nat.zero_le 1)
    have bound : differenceDigit 256 a b 0 < 256 := differenceDigit_lt (by decide) a b _
    simp only [alone, iff_true, ripple, settle, borrow_eq_one_iff, isZero_eq_one_iff, left, right, List.map_cons, List.map_nil,
      Nat.ofDigits_singleton, true_and]
    unfold borrow at digit
    split at digit <;> omega
  · obtain ⟨mid, top, rfl⟩ := longer
    obtain ⟨x, y⟩ := top
    rw [← List.cons_append] at small ⊢
    have below : Bytes ((a, b) :: mid) := fun pair member => small pair (List.mem_append_left _ member)
    have bit : (ripple digit compareCarry (borrow a b 0) mid).2 ≤ 1 := carry_le compareCarry_le (borrow_le a b 0) mid
    rw [ripple_append, settle_append digit]
    refine (compare_last small bit).trans ?_
    rw [pending_iff below]
    refine ⟨fun holds low x' y' split more => ?_, fun comparable => comparable _ _ _ rfl (List.cons_ne_nil _ _)⟩
    obtain ⟨rfl, same⟩ := List.append_inj' split rfl
    obtain ⟨rfl, rfl⟩ := Prod.mk.inj (List.singleton_inj.mp same)
    exact holds

end Digits

section Chains

variable {pairs : List (UInt64 × UInt64)} {ρ : Valuation}

def Compares (pairs : List (UInt64 × UInt64)) (before after : Valuation) : Prop :=
  (Chain.flag after "C" = 1 ↔ number before (pairs.map Prod.fst) < number before (pairs.map Prod.snd)) ∧
  (Chain.flag after "Z" = 1 ↔ number before (pairs.map Prod.fst) = number before (pairs.map Prod.snd))

/-- The difference is in the place of the first number. -/
def Subtracts (pairs : List (UInt64 × UInt64)) (before after : Valuation) : Prop :=
  (number after (pairs.map Prod.fst) : Int) =
    ((number before (pairs.map Prod.fst) : Int) - number before (pairs.map Prod.snd)) % 256 ^ pairs.length

theorem small_bytes (ρ : Valuation) (pairs : List (UInt64 × UInt64)) : Bytes (bytes ρ pairs) := by
  intro pair member
  obtain ⟨registers, _, rfl⟩ := List.mem_map.mp member
  exact ⟨Nat.mod_lt _ (by decide), Nat.mod_lt _ (by decide)⟩

private theorem subtraction_runs (filled : pairs ≠ []) (apart : Apart pairs) : Gives (chain Avr.sub Avr.sbc pairs) fun ρ =>
    Ran (pairs.map Prod.fst) (ripple (differenceDigit 256) less 0 (bytes ρ pairs)).1
      (ripple (differenceDigit 256) less 0 (bytes ρ pairs)).2
      (if Nat.ofDigits 256 (ripple (differenceDigit 256) less 0 (bytes ρ pairs)).1 = 0 then 1 else 0) ρ := by
  cases pairs with
  | nil => exact absurd rfl filled
  | cons pair rest =>
    obtain ⟨stmts, generated, leads⟩ := chain_cons apart sub_computes (chain_runs sbc_computes apart.tail)
    refine ⟨stmts, generated, fun ρ => (leads ρ).imp fun after ran => ⟨ran.digits, ran.carry, ran.equal.trans ?_, ran.kept⟩⟩
    have bit (n : Nat) : isZero n ≤ 1 := by
      unfold isZero
      split <;> omega
    refine (settle_stillZero (bit _)).trans ?_
    simp only [bytes, List.map_cons, ripple, Nat.ofDigits_cons, less]
    unfold isZero
    split <;> split <;> split <;> simp_all

theorem subtraction_iff (filled : pairs ≠ []) (apart : Apart pairs) (ρ : Valuation) :
    Yields (chain Avr.sub Avr.sbc pairs) ρ (fun after => Subtracts pairs ρ after ∧ Compares pairs ρ after) ↔
      Unhidden (bytes ρ pairs) := by
  apply Gives.yields_iff (subtraction_runs filled apart)
  intro after ran
  have small := small_bytes ρ pairs
  have wide : 1 < 256 := by omega
  obtain ⟨value, last⟩ := difference_eq wide small
  rw [Nat.cast_ofNat] at value
  have bound := left_lt wide small
  have bound' := right_lt wide small
  have length : (bytes ρ pairs).length = pairs.length := List.length_map _
  rw [← ripple_less_iff small, Subtracts, Compares, number, ran.digits, ran.carry, ran.equal, number_left, number_right,
    ← length, ← value]
  constructor
  · intro right
    obtain ⟨same, compared, _⟩ := right
    have digits := Nat.ofDigits_inj_of_len_eq wide (by simp) (ripple_lt (differenceDigit_lt wide) _)
      (ripple_lt (differenceDigit_lt wide) _) (Int.ofNat.inj same)
    have bit : (ripple (differenceDigit 256) less 0 (bytes ρ pairs)).2 ≤ 1 := carry_le less_le (Nat.zero_le 1) _
    refine Prod.ext digits ?_
    rw [last]
    split <;> omega
  · intro same
    rw [same, last]
    refine ⟨rfl, ite_eq_one_iff _, ?_⟩
    have total := ripple_difference small (Nat.zero_le 1)
    rw [last] at total
    have zero : Nat.ofDigits 256 (ripple (differenceDigit 256) borrow 0 (bytes ρ pairs)).1 = 0 ↔
        left 256 (bytes ρ pairs) = right 256 (bytes ρ pairs) := by
      split at total <;> omega
    rw [← zero]
    exact ite_eq_one_iff _

private theorem comparison_iff (filled : pairs ≠ []) (apart : Apart pairs) (ρ : Valuation) :
    Yields (chain Avr.cp Avr.cpc pairs) ρ (Compares pairs ρ) ↔ Comparable (bytes ρ pairs) := by
  cases pairs with
  | nil => exact absurd rfl filled
  | cons pair rest =>
    apply Gives.yields_iff (chain_cons apart cp_computes (chain_runs cpc_computes apart.tail))
    intro after ran
    have small := small_bytes ρ (pair :: rest)
    rw [Compares, ran.carry, ran.equal, number_left, number_right]
    have split : bytes ρ (pair :: rest) = (register ρ pair.1, register ρ pair.2) :: bytes ρ rest := rfl
    rw [split] at small ⊢
    exact compares_iff small

/-- Where both chains are right. -/
theorem difference_chains_iff (filled : pairs ≠ []) (apart : Apart pairs) (ρ : Valuation) :
    (Yields (chain Avr.sub Avr.sbc pairs) ρ (fun after => Subtracts pairs ρ after ∧ Compares pairs ρ after) ∧
      Yields (chain Avr.cp Avr.cpc pairs) ρ (Compares pairs ρ)) ↔
    Unhidden (bytes ρ pairs) ∧ Comparable (bytes ρ pairs) :=
  and_congr (subtraction_iff filled apart ρ) (comparison_iff filled apart ρ)

/-- 0x070900 and 0x070301: the lowest bytes borrow, the highest are equal. -/
theorem difference_chains_iff_threeBytes :
    let pairs : List (UInt64 × UInt64) := [(0, 3), (1, 4), (2, 5)]
    let ρ : Valuation := fun name _ =>
      if name = "R1" then 9 else if name = "R2" then 7 else if name = "R3" then 1 else
        if name = "R4" then 3 else if name = "R5" then 7 else 0
    Yields (chain Avr.sub Avr.sbc pairs) ρ (fun after => Subtracts pairs ρ after ∧ Compares pairs ρ after) ∧
      Yields (chain Avr.cp Avr.cpc pairs) ρ (Compares pairs ρ) := by
  intro pairs ρ
  have known : bytes ρ pairs = [(0, 1), (9, 3), (7, 7)] := by decide
  apply (difference_chains_iff (by simp [pairs]) ⟨by simp [pairs], by simp [pairs]⟩ ρ).mpr
  rw [known]
  constructor
  · intro low a b high split same
    rcases low with _ | ⟨x, _ | ⟨y, _ | ⟨z, rest⟩⟩⟩
    · exact le_refl _
    · simp at split
      omega
    · obtain ⟨rfl, rfl, -⟩ : x = (0, 1) ∧ y = (9, 3) ∧ _ := by simpa [eq_comm] using split
      decide
    · simp at split
  · intro low a b split _
    have split : [(0, 1), (9, 3)] ++ [(7, 7)] = low ++ [(a, b)] := split
    obtain ⟨rfl, last⟩ := List.append_inj' split rfl
    obtain ⟨rfl, rfl⟩ := Prod.mk.inj (List.singleton_inj.mp last)
    have pending : Pending [(0, 1), (9, 3)] := ⟨[(0, 1)], 9, 3, [], rfl, by decide, by simp, by decide⟩
    exact ⟨fun _ => by decide, fun clear => absurd pending clear⟩

/-- Zero less one, with two bytes each, borrows nothing from the high byte. -/
theorem not_difference_chains : ¬∀ pairs, pairs ≠ [] → Apart pairs → ∀ ρ,
    Yields (chain Avr.sub Avr.sbc pairs) ρ (fun after => Subtracts pairs ρ after ∧ Compares pairs ρ after) ∧
      Yields (chain Avr.cp Avr.cpc pairs) ρ (Compares pairs ρ) := by
  intro all
  let one : Valuation := fun name _ => if name = "R2" then 1 else 0
  have apart : Apart [(0, 2), (1, 3)] := ⟨by simp, by simp⟩
  have known : bytes one [(0, 2), (1, 3)] = [(0, 1), (0, 0)] := by decide
  have unhidden := (subtraction_iff (by simp) apart one).mp (all _ (by simp) apart one).1
  have below := unhidden [(0, 1)] 0 0 [] known rfl
  exact absurd below (by decide)

end Chains

end Panopticon.Proofs.Borrow
