import Mathlib

/-! Numbers of several digits, the lowest first, added or subtracted digit by digit. What goes
from one digit to the next is a carry. -/

namespace Panopticon.Library.Digits

/-- The digits of a result and the last carry, each from a pair of digits and the carry before it. -/
def ripple (digit carry : Nat → Nat → Nat → Nat) : Nat → List (Nat × Nat) → List Nat × Nat
  | c, [] => ([], c)
  | c, (a, b) :: rest =>
    let later := ripple digit carry (carry a b c) rest
    (digit a b c :: later.1, later.2)

/-- The numbers whose digits are paired. -/
def left (base : Nat) (pairs : List (Nat × Nat)) : Nat := Nat.ofDigits base (pairs.map Prod.fst)

def right (base : Nat) (pairs : List (Nat × Nat)) : Nat := Nat.ofDigits base (pairs.map Prod.snd)

section Ripple

variable {digit carry other : Nat → Nat → Nat → Nat} {c : Nat}

@[simp] theorem length_ripple (pairs : List (Nat × Nat)) : (ripple digit carry c pairs).1.length = pairs.length := by
  induction pairs generalizing c with
  | nil => rfl
  | cons pair rest ih => simp [ripple, ih]

theorem ripple_append (low high : List (Nat × Nat)) : ripple digit carry c (low ++ high) =
    ((ripple digit carry c low).1 ++ (ripple digit carry (ripple digit carry c low).2 high).1,
      (ripple digit carry (ripple digit carry c low).2 high).2) := by
  induction low generalizing c with
  | nil => rfl
  | cons pair rest ih => simp [ripple, ih]

theorem ripple_lt {base : Nat} (small : ∀ a b c, digit a b c < base) (pairs : List (Nat × Nat)) :
    ∀ d ∈ (ripple digit carry c pairs).1, d < base := by
  induction pairs generalizing c with
  | nil => simp [ripple]
  | cons pair rest ih =>
    rw [ripple, List.forall_mem_cons]
    exact ⟨small _ _ _, ih⟩

theorem carry_le (bit : ∀ a b c, carry a b c ≤ 1) (start : c ≤ 1) (pairs : List (Nat × Nat)) :
    (ripple digit carry c pairs).2 ≤ 1 := by
  induction pairs generalizing c with
  | nil => exact start
  | cons pair rest ih => exact ih (bit _ _ _)

/-- The digits tell which of the two carries came in. -/
def Tells (digit : Nat → Nat → Nat → Nat) (pairs : List (Nat × Nat)) : Prop :=
  ∀ pair ∈ pairs, ∀ c ≤ 1, ∀ d ≤ 1, digit pair.1 pair.2 c = digit pair.1 pair.2 d → c = d

theorem ripple_inj {pairs : List (Nat × Nat)} {d : Nat} (tells : Tells digit pairs) (start : c ≤ 1) (start' : d ≤ 1)
    (same : ripple digit carry c pairs = ripple digit other d pairs) : c = d := by
  cases pairs with
  | nil => exact (Prod.mk.inj same).2
  | cons pair rest =>
    have digits := (List.cons.inj (Prod.mk.inj same).1).1
    exact tells pair (List.mem_cons_self ..) c start d start' digits

/-- Two rules for the carry come to the same result exactly where they agree at every digit. -/
theorem ripple_eq_iff {pairs : List (Nat × Nat)} (tells : Tells digit pairs) (bit : ∀ a b c, carry a b c ≤ 1)
    (bit' : ∀ a b c, other a b c ≤ 1) : ripple digit carry c pairs = ripple digit other c pairs ↔
      ∀ low a b high, pairs = low ++ (a, b) :: high →
        carry a b (ripple digit other c low).2 = other a b (ripple digit other c low).2 := by
  induction pairs generalizing c with
  | nil => simp [ripple]
  | cons pair rest ih =>
    obtain ⟨a, b⟩ := pair
    have later : Tells digit rest := fun pair member => tells pair (List.mem_cons_of_mem _ member)
    have agree : ripple digit carry c ((a, b) :: rest) = ripple digit other c ((a, b) :: rest) ↔
        carry a b c = other a b c ∧ ripple digit carry (other a b c) rest = ripple digit other (other a b c) rest := by
      constructor
      · intro same
        have tails : ripple digit carry (carry a b c) rest = ripple digit other (other a b c) rest := by
          obtain ⟨digits, last⟩ := Prod.mk.inj same
          exact Prod.ext (List.cons.inj digits).2 last
        have first := ripple_inj later (bit a b c) (bit' a b c) tails
        exact ⟨first, first ▸ tails⟩
      · intro holds
        obtain ⟨first, tails⟩ := holds
        simp only [ripple, first, tails]
    rw [agree, ih later]
    constructor
    · intro holds low a' b' high split
      obtain ⟨first, tails⟩ := holds
      cases low with
      | nil =>
        obtain ⟨pair, rfl⟩ := List.cons.inj split
        cases pair
        exact first
      | cons pair low =>
        obtain ⟨first, split⟩ := List.cons.inj split
        rw [← first]
        exact tails low a' b' high split
    · intro all
      exact ⟨all [] a b rest rfl, fun low a' b' high split => all ((a, b) :: low) a' b' high (by rw [split]; rfl)⟩

end Ripple

section Arithmetic

variable (base : Nat)

def sumDigit (a b c : Nat) : Nat := (a + b + c) % base

def sumCarry (a b c : Nat) : Nat := (a + b + c) / base

def differenceDigit (a b c : Nat) : Nat := (a + base - b - c) % base

def borrow (a b c : Nat) : Nat := if a < b + c then 1 else 0

variable {base} {c : Nat} {pairs : List (Nat × Nat)}

theorem sumDigit_lt (wide : 1 < base) (a b c : Nat) : sumDigit base a b c < base := Nat.mod_lt _ (by omega)

theorem differenceDigit_lt (wide : 1 < base) (a b c : Nat) : differenceDigit base a b c < base := Nat.mod_lt _ (by omega)

theorem borrow_le (a b c : Nat) : borrow a b c ≤ 1 := by
  unfold borrow
  split <;> omega

theorem differenceDigit_add {a b : Nat} (small : a < base) (small' : b < base) (bit : c ≤ 1) :
    differenceDigit base a b c + b + c = a + base * borrow a b c := by
  unfold differenceDigit borrow
  split
  next less =>
    rw [Nat.mod_eq_of_lt (by omega)]
    omega
  next more =>
    have wrapped : a + base - b - c = a - b - c + base := by omega
    rw [wrapped, Nat.add_mod_right, Nat.mod_eq_of_lt (by omega)]
    omega

theorem ofDigits_ripple_lt {digit carry : Nat → Nat → Nat → Nat} (wide : 1 < base) (small : ∀ a b c, digit a b c < base) :
    Nat.ofDigits base (ripple digit carry c pairs).1 < base ^ pairs.length := by
  have bound : Nat.ofDigits base (ripple digit carry c pairs).1 < base ^ (ripple digit carry c pairs).1.length :=
    Nat.ofDigits_lt_base_pow_length wide (ripple_lt small pairs)
  rwa [length_ripple] at bound

theorem left_cons (a b : Nat) : left base ((a, b) :: pairs) = a + base * left base pairs := by
  simp [left, Nat.ofDigits_cons]

theorem right_cons (a b : Nat) : right base ((a, b) :: pairs) = b + base * right base pairs := by
  simp [right, Nat.ofDigits_cons]

theorem ripple_sum : Nat.ofDigits base (ripple (sumDigit base) (sumCarry base) c pairs).1 +
    base ^ pairs.length * (ripple (sumDigit base) (sumCarry base) c pairs).2 = left base pairs + right base pairs + c := by
  induction pairs generalizing c with
  | nil => simp [ripple, left, right]
  | cons pair rest ih =>
    obtain ⟨a, b⟩ := pair
    have first : sumDigit base a b c + base * sumCarry base a b c = a + b + c := Nat.mod_add_div _ _
    have later := ih (c := sumCarry base a b c)
    simp only [ripple, left_cons, right_cons, Nat.ofDigits_cons, List.length_cons, pow_succ]
    generalize ripple (sumDigit base) (sumCarry base) (sumCarry base a b c) rest = result at later ⊢
    calc sumDigit base a b c + base * Nat.ofDigits base result.1 + base ^ rest.length * base * result.2
        = sumDigit base a b c + base * (Nat.ofDigits base result.1 + base ^ rest.length * result.2) := by ring
      _ = (sumDigit base a b c + base * sumCarry base a b c) + base * (left base rest + right base rest) := by
        rw [later]
        ring
      _ = a + base * left base rest + (b + base * right base rest) + c := by
        rw [first]
        ring

theorem ripple_difference (small : ∀ pair ∈ pairs, pair.1 < base ∧ pair.2 < base) (start : c ≤ 1) :
    Nat.ofDigits base (ripple (differenceDigit base) borrow c pairs).1 + right base pairs + c =
      left base pairs + base ^ pairs.length * (ripple (differenceDigit base) borrow c pairs).2 := by
  induction pairs generalizing c with
  | nil => simp [ripple, left, right]
  | cons pair rest ih =>
    obtain ⟨a, b⟩ := pair
    obtain ⟨smallA, smallB⟩ := small (a, b) (List.mem_cons_self ..)
    have bit := borrow_le a b c
    have first := differenceDigit_add smallA smallB start
    have later := ih (c := borrow a b c) (fun pair member => small pair (List.mem_cons_of_mem _ member)) bit
    simp only [ripple, left_cons, right_cons, Nat.ofDigits_cons, List.length_cons, pow_succ]
    generalize ripple (differenceDigit base) borrow (borrow a b c) rest = result at later ⊢
    calc differenceDigit base a b c + base * Nat.ofDigits base result.1 + (b + base * right base rest) + c
        = (differenceDigit base a b c + b + c) + base * (Nat.ofDigits base result.1 + right base rest) := by ring
      _ = a + base * (Nat.ofDigits base result.1 + right base rest + borrow a b c) := by
        rw [first]
        ring
      _ = a + base * left base rest + base ^ rest.length * base * result.2 := by
        rw [later]
        ring

theorem sum_eq (wide : 1 < base) :
    Nat.ofDigits base (ripple (sumDigit base) (sumCarry base) c pairs).1 =
      (left base pairs + right base pairs + c) % base ^ pairs.length ∧
    (ripple (sumDigit base) (sumCarry base) c pairs).2 = (left base pairs + right base pairs + c) / base ^ pairs.length := by
  have bound : Nat.ofDigits base (ripple (sumDigit base) (sumCarry base) c pairs).1 < base ^ pairs.length :=
    ofDigits_ripple_lt wide (sumDigit_lt wide)
  rw [← ripple_sum, Nat.add_mul_mod_self_left, Nat.mod_eq_of_lt bound, Nat.add_mul_div_left _ _ (by positivity),
    Nat.div_eq_of_lt bound, zero_add]
  exact ⟨rfl, rfl⟩

theorem left_lt (wide : 1 < base) (small : ∀ pair ∈ pairs, pair.1 < base ∧ pair.2 < base) :
    left base pairs < base ^ pairs.length := by
  have bound := Nat.ofDigits_lt_base_pow_length (l := pairs.map Prod.fst) wide
    (by simpa using fun a b member => (small (a, b) member).1)
  rwa [List.length_map] at bound

theorem right_lt (wide : 1 < base) (small : ∀ pair ∈ pairs, pair.1 < base ∧ pair.2 < base) :
    right base pairs < base ^ pairs.length := by
  have bound := Nat.ofDigits_lt_base_pow_length (l := pairs.map Prod.snd) wide
    (by simpa using fun b a member => (small (a, b) member).2)
  rwa [List.length_map] at bound

/-- Schoolbook subtraction is subtraction of the numbers, and the last borrow compares them. -/
theorem difference_eq (wide : 1 < base) (small : ∀ pair ∈ pairs, pair.1 < base ∧ pair.2 < base) :
    ((Nat.ofDigits base (ripple (differenceDigit base) borrow 0 pairs).1 : Nat) : Int) =
      ((left base pairs : Int) - right base pairs) % base ^ pairs.length ∧
    (ripple (differenceDigit base) borrow 0 pairs).2 = if left base pairs < right base pairs then 1 else 0 := by
  have total := ripple_difference small (Nat.zero_le 1)
  have bound : Nat.ofDigits base (ripple (differenceDigit base) borrow 0 pairs).1 < base ^ pairs.length :=
    ofDigits_ripple_lt wide (differenceDigit_lt wide)
  have bit : (ripple (differenceDigit base) borrow 0 pairs).2 ≤ 1 := carry_le borrow_le (Nat.zero_le 1) pairs
  have boundA := left_lt wide small
  have boundB := right_lt wide small
  have power : ((base ^ pairs.length : Nat) : Int) = (base : Int) ^ pairs.length := by push_cast; rfl
  rw [← power]
  generalize ripple (differenceDigit base) borrow 0 pairs = result at total bound bit ⊢
  obtain ⟨digits, last⟩ := result
  dsimp only at total bound bit ⊢
  rcases Nat.le_one_iff_eq_zero_or_eq_one.mp bit with rfl | rfl
  · have plain : (left base pairs : Int) - right base pairs = Nat.ofDigits base digits := by omega
    rw [plain, Int.emod_eq_of_lt (by omega) (by omega), if_neg (by omega)]
    exact ⟨rfl, rfl⟩
  · have wrapped : (left base pairs : Int) - right base pairs =
        Nat.ofDigits base digits - ((base ^ pairs.length : Nat) : Int) := by omega
    rw [wrapped, Int.sub_emod_right, Int.emod_eq_of_lt (by omega) (by omega), if_pos (by omega)]
    exact ⟨rfl, rfl⟩

end Arithmetic

end Panopticon.Library.Digits
