import Mathlib

/-! Numbers of up to 64 bits kept in a machine word: masks, the two's complement reading
of the low bits, and the arithmetic of both. -/

namespace Panopticon.Library.Word

/-- The lowest `s` bits, all of them from 64 on. -/
def mask (s : Nat) : UInt64 := if s < 64 then (1 <<< s.toUInt64) - 1 else 0xffffffffffffffff

/-- The bit of weight `2 ^ s`, for `s` below 64. -/
def bit (s : UInt64) : UInt64 := 1 <<< s

/-- The low `s` bits of a word as a signed machine word: a set sign bit moves the number down by `2 ^ s`. -/
def signed (s : Nat) (value : UInt64) : Int64 :=
  if s < 64 then
    let m := (bit s.toUInt64).toInt64
    let a := value.toInt64
    (if bit (s.toUInt64 - 1) &&& value ≠ 0 then a - m else a) % m
  else value.toInt64

/-- Two's complement value of an `s` bit number. -/
def twos (s n : Nat) : Int := (n : Int).bmod (2 ^ s)

/-- The number the signed operations take a constant for. From `2 ^ 63` on they see no clear sign bit, and from
`2 ^ s` up to `2 ^ 63 + 2 ^ s` no set one. -/
def reading (s n : Nat) : Int :=
  if n % 2 ^ s < 2 ^ (s - 1) then
    if 2 ^ 63 ≤ n ∧ n % 2 ^ s ≠ 0 then n % 2 ^ s - 2 ^ min s 64 else n % 2 ^ s
  else if 2 ^ s ≤ n ∧ n < 2 ^ 63 + 2 ^ s then n % 2 ^ s else n % 2 ^ s - 2 ^ s

/-- The `s` bit number an integer is reduced to. -/
def word (s : Nat) (i : Int) : UInt64 := UInt64.ofNat (i % 2 ^ s).toNat

theorem toNat_bit {s : Nat} (short : s < 64) : (bit s.toUInt64).toNat = 2 ^ s := by
  have power : 2 ^ s < 2 ^ 64 := Nat.pow_lt_pow_right (by norm_num) short
  have amount : s.toUInt64.toNat % 64 = s := by
    simp only [Nat.toUInt64_eq, UInt64.toNat_ofNat']
    omega
  rw [bit, UInt64.toNat_shiftLeft, amount, UInt64.toNat_one, Nat.shiftLeft_eq, one_mul, Nat.mod_eq_of_lt power]

theorem toNat_mask {s : Nat} (width : s ≤ 64) : (mask s).toNat = 2 ^ s - 1 := by
  unfold mask
  split
  next short =>
    have power := toNat_bit short
    have one : (1 : UInt64) ≤ bit s.toUInt64 := by
      rw [UInt64.le_iff_toNat_le, power]
      exact Nat.one_le_two_pow
    change (bit s.toUInt64 - 1).toNat = _
    rw [UInt64.toNat_sub_of_le _ _ one, power]
    rfl
  next long =>
    obtain rfl : s = 64 := by omega
    rfl

@[simp] theorem toNat_and_mask (s : Nat) (a : UInt64) : (a &&& mask s).toNat = a.toNat % 2 ^ s := by
  rcases Nat.le_total s 64 with width | wide
  · rw [UInt64.toNat_and, toNat_mask width, Nat.and_two_pow_sub_one_eq_mod]
  · have full : mask s = mask 64 := by simp [mask, Nat.not_lt.mpr wide]
    have bound : 2 ^ 64 ≤ 2 ^ s := Nat.pow_le_pow_right (by decide) wide
    rw [full, UInt64.toNat_and, toNat_mask le_rfl, Nat.and_two_pow_sub_one_eq_mod, Nat.mod_eq_of_lt a.toNat_lt,
      Nat.mod_eq_of_lt (a.toNat_lt.trans_le bound)]

theorem and_mask_of_lt {s : Nat} {a : UInt64} (small : a.toNat < 2 ^ s) : a &&& mask s = a := by
  apply UInt64.toNat.inj
  rw [toNat_and_mask, Nat.mod_eq_of_lt small]

/-- The two's complement value is the only number in its range that is congruent. -/
theorem twos_eq {s n : Nat} {x : Int} (positive : 1 ≤ s) (low : -2 ^ (s - 1) ≤ x) (high : x < 2 ^ (s - 1))
    (congruent : (2 ^ s : Int) ∣ x - n) : twos s n = x := by
  obtain ⟨k, rfl⟩ := Nat.exists_eq_add_of_le' positive
  simp only [Nat.add_sub_cancel] at low high
  rw [twos, Int.bmod_eq_iff (by positivity)]
  push_cast
  rw [pow_succ] at *
  refine ⟨?_, ?_, congruent⟩
  · omega
  · omega

theorem twos_of_lt {s n : Nat} (positive : 1 ≤ s) (small : n < 2 ^ (s - 1)) : twos s n = n := by
  apply twos_eq positive
  · have : (0 : Int) ≤ 2 ^ (s - 1) := by positivity
    omega
  · exact_mod_cast small
  · simp

theorem twos_of_le {s n : Nat} (positive : 1 ≤ s) (large : 2 ^ (s - 1) ≤ n) (small : n < 2 ^ s) :
    twos s n = n - 2 ^ s := by
  have split : (2 : Int) ^ s = 2 * 2 ^ (s - 1) := by rw [← pow_succ', Nat.sub_add_cancel positive]
  have lower : (2 : Int) ^ (s - 1) ≤ n := by exact_mod_cast large
  have upper : (n : Int) < 2 ^ s := by exact_mod_cast small
  apply twos_eq positive
  · omega
  · omega
  · exact ⟨-1, by ring⟩

theorem toUInt64_sub_one {s : Nat} (positive : 1 ≤ s) : s.toUInt64 - 1 = (s - 1).toUInt64 := by
  obtain ⟨k, rfl⟩ := Nat.exists_eq_add_of_le' positive
  simp [Nat.toUInt64_eq]

/-- The sign bit of an `s` bit number, in its place. -/
theorem and_bit {s : Nat} {v : UInt64} (positive : 1 ≤ s) (width : s ≤ 64) (small : v.toNat < 2 ^ s) :
    v &&& bit (s.toUInt64 - 1) = if 2 ^ (s - 1) ≤ v.toNat then bit (s.toUInt64 - 1) else 0 := by
  have power : 2 ^ s = 2 ^ (s - 1) * 2 := by rw [← pow_succ, Nat.sub_add_cancel positive]
  rw [toUInt64_sub_one positive, ← UInt64.toNat_inj, UInt64.toNat_and, toNat_bit (by omega), Nat.and_two_pow,
    Nat.testBit_eq_decide_div_mod_eq]
  rw [power] at small
  have parts := Nat.div_lt_of_lt_mul small
  split
  next large =>
    have : 1 ≤ v.toNat / 2 ^ (s - 1) := (Nat.one_le_div_iff (by positivity)).mpr large
    have odd : v.toNat / 2 ^ (s - 1) % 2 = 1 := by omega
    rw [odd, toNat_bit (by omega)]
    simp
  next less =>
    rw [Nat.div_eq_of_lt (by omega)]
    simp

theorem bit_and_ne_zero {s : Nat} {v : UInt64} (positive : 1 ≤ s) (width : s ≤ 64) (small : v.toNat < 2 ^ s) :
    bit (s.toUInt64 - 1) &&& v ≠ 0 ↔ 2 ^ (s - 1) ≤ v.toNat := by
  have nonzero : bit (s.toUInt64 - 1) ≠ 0 := by
    rw [toUInt64_sub_one positive, ne_eq, ← UInt64.toNat_inj, toNat_bit (by omega), UInt64.toNat_zero]
    positivity
  rw [UInt64.and_comm, and_bit positive width small]
  split
  next large => exact ⟨fun _ => large, fun _ => nonzero⟩
  next less => exact ⟨fun set => absurd rfl set, fun large => absurd large less⟩

theorem bit_and_ne_zero_iff {s : Nat} {v : UInt64} (positive : 1 ≤ s) (width : s ≤ 64) :
    bit (s.toUInt64 - 1) &&& v ≠ 0 ↔ 2 ^ (s - 1) ≤ v.toNat % 2 ^ s := by
  have power : 2 ^ s = 2 ^ (s - 1) * 2 := by rw [← pow_succ, Nat.sub_add_cancel positive]
  have masked : (v &&& mask s).toNat = v.toNat % 2 ^ s := toNat_and_mask s v
  have same : bit (s.toUInt64 - 1) &&& v = bit (s.toUInt64 - 1) &&& (v &&& mask s) := by
    have inside : bit (s.toUInt64 - 1) &&& mask s = bit (s.toUInt64 - 1) := by
      apply and_mask_of_lt
      rw [toUInt64_sub_one positive, toNat_bit (by omega)]
      exact Nat.pow_lt_pow_right (by decide) (by omega)
    conv_lhs => rw [← inside]
    rw [UInt64.and_assoc, UInt64.and_comm (mask s)]
  rw [same, bit_and_ne_zero positive width (by rw [masked]; exact Nat.mod_lt _ (by positivity)), masked]

theorem toInt_toInt64 (v : UInt64) : v.toInt64.toInt = twos 64 v.toNat := by
  rw [← Int64.toInt_toBitVec, UInt64.toBitVec_toInt64, BitVec.toInt_eq_toNat_bmod, UInt64.toNat_toBitVec, twos]

/-- Up to its sign at `s = 63`, the modulus is `2 ^ s`. -/
theorem toInt_bit {s : Nat} (short : s < 64) :
    (bit s.toUInt64).toInt64.toInt = 2 ^ s ∨ s = 63 ∧ (bit s.toUInt64).toInt64.toInt = -2 ^ 63 := by
  rw [toInt_toInt64, toNat_bit short]
  rcases Nat.lt_or_ge s 63 with low | top
  · left
    rw [twos_of_lt (by norm_num) (Nat.pow_lt_pow_right (by norm_num) low)]
    norm_cast
  · right
    obtain rfl : s = 63 := by omega
    exact ⟨rfl, by decide⟩

theorem twos_emod (s n : Nat) : twos s n % 2 ^ s = n % 2 ^ s := by
  rw [twos]
  exact_mod_cast Int.bmod_emod

theorem tmod_two_pow (x : Int) (s n : Nat) (congruent : x % 2 ^ s = n) :
    x.tmod (2 ^ s) = if x < 0 ∧ n ≠ 0 then (n : Int) - 2 ^ s else n := by
  have power : (0 : Int) < 2 ^ s := by positivity
  have size : ((2 ^ s : Int).natAbs : Int) = 2 ^ s := Int.natAbs_of_nonneg power.le
  rw [Int.tmod_eq_emod, congruent, Nat.cast_ite, size]
  have divides : (2 ^ s : Int) ∣ x ↔ n = 0 := by
    rw [Int.dvd_iff_emod_eq_zero, congruent]
    norm_cast
  simp only [divides]
  split <;> split <;> omega

theorem toInt_signed_eq {s : Nat} (positive : 1 ≤ s) (v : UInt64) : (signed s v).toInt = reading s v.toNat := by
  unfold signed reading
  have bound := v.toNat_lt
  split
  next short =>
    have wide : (2 : Int) ^ s ≤ 2 ^ 63 := pow_le_pow_right₀ (by norm_num) (by omega)
    have half : (2 : Nat) ^ (s - 1) * 2 = 2 ^ s := by rw [← pow_succ, Nat.sub_add_cancel positive]
    have power : (0 : Int) < 2 ^ s := by positivity
    have remainder : (v.toNat : Int) % 2 ^ s = (v.toNat % 2 ^ s : Nat) := by norm_cast
    have divides : (2 : Int) ^ s ∣ 2 ^ 64 := pow_dvd_pow 2 (by omega)
    have value : v.toInt64.toInt = twos 64 v.toNat := toInt_toInt64 v
    have congruent : v.toInt64.toInt % 2 ^ s = (v.toNat % 2 ^ s : Nat) := by
      rw [value, ← Int.emod_emod_of_dvd _ divides, twos_emod, Int.emod_emod_of_dvd _ divides, remainder]
    have reduced (x : Int64) : (x % (bit s.toUInt64).toInt64).toInt = x.toInt.tmod (2 ^ s) := by
      rw [Int64.toInt_mod]
      rcases toInt_bit short with sign | ⟨rfl, sign⟩
      · rw [sign]
      · rw [sign, Int.tmod_neg]
    have minimum : min s 64 = s := by omega
    simp only [ne_eq, ite_not, minimum]
    split
    next clear =>
      have below : v.toNat % 2 ^ s < 2 ^ (s - 1) := by
        by_contra large
        exact (bit_and_ne_zero_iff positive short.le).mpr (by omega) clear
      rw [reduced, tmod_two_pow _ s _ congruent, if_pos below]
      have negative : v.toInt64.toInt < 0 ↔ 2 ^ 63 ≤ v.toNat := by
        rw [value]
        rcases Nat.lt_or_ge v.toNat (2 ^ 63) with low | high
        · rw [twos_of_lt (by decide) low]
          omega
        · rw [twos_of_le (by decide) high bound]
          omega
      simp only [negative, remainder, ne_eq]
    next set =>
      have large := (bit_and_ne_zero_iff positive short.le).mp set
      have moved : (v.toInt64 - (bit s.toUInt64).toInt64).toInt = ((v.toNat : Int) - 2 ^ s).bmod (2 ^ 64) := by
        rw [Int64.toInt_sub, value, twos]
        rcases toInt_bit short with sign | ⟨rfl, sign⟩
        · rw [sign, Int.bmod_sub_bmod]
        · have once : (v.toNat : Int) - -2 ^ 63 = v.toNat - 2 ^ 63 + (2 ^ 64 : Nat) := by
            push_cast
            ring
          rw [sign, Int.bmod_sub_bmod, once, Int.add_bmod_right]
      have congruent' : ((v.toNat : Int) - 2 ^ s).bmod (2 ^ 64) % 2 ^ s = (v.toNat % 2 ^ s : Nat) := by
        have same : ((v.toNat : Int) - 2 ^ s).bmod (2 ^ 64) % 2 ^ 64 = ((v.toNat : Int) - 2 ^ s) % 2 ^ 64 := by
          exact_mod_cast Int.bmod_emod
        rw [← Int.emod_emod_of_dvd _ divides, same, Int.emod_emod_of_dvd _ divides, Int.sub_emod_right, remainder]
      rw [reduced, moved, tmod_two_pow _ s _ congruent']
      have negative : ((v.toNat : Int) - 2 ^ s).bmod (2 ^ 64) < 0 ↔ ¬(2 ^ s ≤ v.toNat ∧ v.toNat < 2 ^ 63 + 2 ^ s) := by
        have lower : 2 ^ s ≤ v.toNat ↔ (2 : Int) ^ s ≤ v.toNat := by norm_cast
        have upper : v.toNat < 2 ^ 63 + 2 ^ s ↔ (v.toNat : Int) < 2 ^ 63 + 2 ^ s := by norm_cast
        rw [lower, upper, Int.bmod_def]
        omega
      have nonzero : v.toNat % 2 ^ s ≠ 0 := by
        have : 0 < 2 ^ (s - 1) := by positivity
        omega
      simp only [negative, nonzero, ne_eq, not_false_eq_true, and_true, ite_not, remainder, if_neg (Nat.not_lt.mpr large)]
  next long =>
    have minimum : min s 64 = 64 := by omega
    have wide : 2 ^ 64 ≤ 2 ^ s := Nat.pow_le_pow_right (by decide) (by omega)
    have whole : v.toNat % 2 ^ s = v.toNat := Nat.mod_eq_of_lt (bound.trans_le wide)
    have integer : (v.toNat : Int) % 2 ^ s = v.toNat := by exact_mod_cast whole
    rw [toInt_toInt64, minimum, whole, integer]
    rcases Nat.lt_or_ge v.toNat (2 ^ 63) with low | high
    · have below : v.toNat < 2 ^ (s - 1) := low.trans_le (Nat.pow_le_pow_right (by decide) (by omega))
      rw [twos_of_lt (by decide) low, if_pos below, if_neg (by omega)]
    · rw [twos_of_le (by decide) high bound]
      rcases Nat.lt_or_ge v.toNat (2 ^ (s - 1)) with below | above
      · rw [if_pos below, if_pos ⟨high, by omega⟩]
      · obtain rfl : s = 64 := by
          by_contra other
          have := Nat.pow_le_pow_right (show 0 < 2 by decide) (show 64 ≤ s - 1 by omega)
          omega
        rw [if_neg (by omega), if_neg (by omega)]

theorem reading_of_lt {s n : Nat} (positive : 1 ≤ s) (width : s ≤ 64) (small : n < 2 ^ s) : reading s n = twos s n := by
  have integer : (n : Int) % 2 ^ s = n := by exact_mod_cast Nat.mod_eq_of_lt small
  have wide : 2 ^ s ≤ 2 ^ 64 := Nat.pow_le_pow_right (by decide) width
  rw [reading, Nat.mod_eq_of_lt small, integer]
  split
  next below =>
    have short : n < 2 ^ 63 := below.trans_le (Nat.pow_le_pow_right (by decide) (by omega))
    rw [twos_of_lt positive below, if_neg (by omega)]
  next above => rw [twos_of_le positive (by omega) small, if_neg (by omega)]

theorem reading_eq_zero {s n : Nat} (word : n < 2 ^ 64) : reading s n = 0 ↔ n % 2 ^ s = 0 := by
  have small : n % 2 ^ s < 2 ^ min s 64 := by
    rcases Nat.le_total s 64 with width | wide
    · rw [min_eq_left width]
      exact Nat.mod_lt _ (by positivity)
    · rw [min_eq_right wide]
      exact (Nat.mod_le _ _).trans_lt word
  have integer : (n % 2 ^ s : Int) = (n % 2 ^ s : Nat) := by norm_cast
  have bound : ((n % 2 ^ s : Nat) : Int) < 2 ^ min s 64 := by exact_mod_cast small
  have below : ((n % 2 ^ s : Nat) : Int) < 2 ^ s := by exact_mod_cast Nat.mod_lt n (show 2 ^ s > 0 by positivity)
  rw [reading, integer]
  split
  next => split <;> omega
  next set =>
    have half : 0 < 2 ^ (s - 1) := by positivity
    split <;> omega

/-- Up to 64 bits a reading is off by the weight of the sign bit twice, or right. -/
theorem reading_cases {s : Nat} (positive : 1 ≤ s) (width : s ≤ 64) (n : Nat) :
    reading s n = twos s n ∨ reading s n = twos s n + 2 ^ s ∨ reading s n = twos s n - 2 ^ s := by
  have integer : (n % 2 ^ s : Int) = (n % 2 ^ s : Nat) := by norm_cast
  have small : n % 2 ^ s < 2 ^ s := Nat.mod_lt _ (by positivity)
  have same : twos s n = twos s (n % 2 ^ s) := by
    rw [twos, twos]
    exact_mod_cast (Int.emod_bmod (n : Int) (2 ^ s)).symm
  rw [reading, integer, same, min_eq_left width]
  rcases Nat.lt_or_ge (n % 2 ^ s) (2 ^ (s - 1)) with clear | set
  · rw [if_pos clear, twos_of_lt positive clear]
    split
    · exact .inr (.inr rfl)
    · exact .inl rfl
  · rw [if_neg (Nat.not_lt.mpr set), twos_of_le positive set small]
    split
    · exact .inr (.inl (by omega))
    · exact .inl rfl

theorem reading_of_wide {s n : Nat} (wide : 64 < s) (word : n < 2 ^ 64) :
    reading s n = if n < 2 ^ 63 then (n : Int) else n - 2 ^ 64 := by
  have half : 2 ^ 64 ≤ 2 ^ (s - 1) := Nat.pow_le_pow_right (by decide) (by omega)
  have whole : n % 2 ^ s = n := Nat.mod_eq_of_lt (word.trans_le (Nat.pow_le_pow_right (by decide) (by omega)))
  have integer : (n % 2 ^ s : Int) = n := by exact_mod_cast whole
  rw [reading, integer, whole, if_pos (by omega), min_eq_right wide.le]
  split <;> split <;> omega

theorem toInt_signed {s : Nat} {v : UInt64} (positive : 1 ≤ s) (width : s ≤ 64) (small : v.toNat < 2 ^ s) :
    (signed s v).toInt = twos s v.toNat := by
  rw [toInt_signed_eq positive, reading_of_lt positive width small]

theorem twos_inj {s a b : Nat} (smallA : a < 2 ^ s) (smallB : b < 2 ^ s) : twos s a = twos s b ↔ a = b := by
  constructor
  · intro same
    have modulo := twos_emod s a
    rw [same, twos_emod, Int.emod_eq_of_lt (by omega) (by exact_mod_cast smallB),
      Int.emod_eq_of_lt (by omega) (by exact_mod_cast smallA)] at modulo
    omega
  · rintro rfl
    rfl

theorem twos_bounds {s : Nat} (positive : 1 ≤ s) (n : Nat) : -2 ^ (s - 1) ≤ twos s n ∧ twos s n < 2 ^ (s - 1) := by
  obtain ⟨k, rfl⟩ := Nat.exists_eq_add_of_le' positive
  have low := Int.le_bmod (show 0 < 2 ^ (k + 1) by positivity) (x := (n : Int))
  have high := Int.bmod_lt (show 0 < 2 ^ (k + 1) by positivity) (x := (n : Int))
  rw [Nat.add_sub_cancel, twos]
  have half : ((2 ^ (k + 1) : Nat) : Int) = 2 * 2 ^ k := by
    rw [pow_succ']
    norm_cast
  rw [half] at low high
  omega

theorem twos_eq_zero {s n : Nat} (small : n < 2 ^ s) : twos s n = 0 ↔ n = 0 := by
  constructor
  · intro zero
    have same := twos_emod s n
    rw [zero, Int.zero_emod] at same
    have : (n : Int) % 2 ^ s = n := Int.emod_eq_of_lt (by omega) (by exact_mod_cast small)
    omega
  · rintro rfl
    simp [twos]

theorem signed_eq_zero {s : Nat} {v : UInt64} (positive : 1 ≤ s) (width : s ≤ 64) (small : v.toNat < 2 ^ s) :
    signed s v = 0 ↔ v = 0 := by
  rw [← Int64.toInt_inj, toInt_signed positive width small, Int64.toInt_zero, twos_eq_zero small,
    ← UInt64.toNat_inj, UInt64.toNat_zero]

@[simp] theorem toNat_word {s : Nat} (width : s ≤ 64) (i : Int) : ((word s i).toNat : Int) = i % 2 ^ s := by
  have positive : (0 : Int) < 2 ^ s := by positivity
  have bound : (2 : Int) ^ s ≤ 2 ^ 64 := pow_le_pow_right₀ (by norm_num) width
  have low := Int.emod_nonneg i positive.ne'
  have high := Int.emod_lt_of_pos i positive
  rw [word, UInt64.toNat_ofNat_of_lt' (by simp only [UInt64.size]; omega), Int.toNat_of_nonneg low]

theorem eq_word {s : Nat} (width : s ≤ 64) {v : UInt64} {i : Int} : v = word s i ↔ (v.toNat : Int) = i % 2 ^ s := by
  rw [← toNat_word width, ← UInt64.toNat_inj]
  norm_cast

theorem eq_word_of_lt {s : Nat} (width : s ≤ 64) {v : UInt64} {n : Nat} (same : v.toNat = n) (small : n < 2 ^ s) :
    v = word s n := by
  rw [eq_word width, same, Int.emod_eq_of_lt (by omega) (by exact_mod_cast small)]

/-- Masking computes the word of every integer the machine word is congruent to. -/
theorem and_mask_eq_word {s : Nat} (width : s ≤ 64) {v : UInt64} {i : Int}
    (congruent : (v.toNat : Int) % 2 ^ 64 = i % 2 ^ 64) : v &&& mask s = word s i := by
  have divides : (2 : Int) ^ s ∣ 2 ^ 64 := pow_dvd_pow 2 width
  rw [eq_word width, toNat_and_mask]
  push_cast
  rw [← Int.emod_emod_of_dvd _ divides, congruent, Int.emod_emod_of_dvd _ divides]

theorem toNat_toUInt64_emod (x : Int64) : (x.toUInt64.toNat : Int) % 2 ^ 64 = x.toInt % 2 ^ 64 := by
  have same := twos_emod 64 x.toUInt64.toNat
  rw [← toInt_toInt64, Int64.toInt64_toUInt64] at same
  exact same.symm

theorem toInt_shiftRight (x : Int64) (b : UInt64) : (x >>> b.toInt64).toInt = x.toInt / 2 ^ (b.toNat % 64) := by
  have amount : (b.toInt64.toBitVec.smod 64).toNat = b.toNat % 64 := by
    have number : (b.toInt64.toBitVec.smod 64).toInt = (b.toNat % 64 : Nat) := by
      rw [BitVec.toInt_smod, Int64.toInt_toBitVec, toInt_toInt64]
      have word : (64 : BitVec 64).toInt = 64 := by decide
      have same := twos_emod 64 b.toNat
      rw [word, Int.fmod_eq_emod_of_nonneg _ (by decide)]
      omega
    have bound := (b.toInt64.toBitVec.smod 64).isLt
    rw [BitVec.toInt_eq_toNat_cond] at number
    split at number <;> omega
  rw [← Int64.toInt_toBitVec, Int64.toBitVec_shiftRight, BitVec.sshiftRight', BitVec.toInt_sshiftRight, amount,
    Int.shiftRight_eq_div_pow, Int64.toInt_toBitVec]
  norm_cast

theorem toUInt64_le_iff {s : Nat} (word : s < 2 ^ 64) {b : UInt64} : s.toUInt64 ≤ b ↔ s ≤ b.toNat := by
  rw [UInt64.le_iff_toNat_le, Nat.toUInt64_eq, UInt64.toNat_ofNat_of_lt' word]

theorem mod_bit {s : Nat} (short : s < 64) (v : UInt64) : v % bit s.toUInt64 = v &&& mask s := by
  rw [← UInt64.toNat_inj, UInt64.toNat_mod, toNat_bit short, toNat_and_mask]

theorem toNat_toUInt64 {n : Nat} (short : n < 64) : n.toUInt64.toNat = n := by
  rw [Nat.toUInt64_eq, UInt64.toNat_ofNat_of_lt' (by simp only [UInt64.size]; omega)]

theorem div_mod_iff {a b s : Nat} (inside : b ≤ s) :
    a % 2 ^ s / 2 ^ b = a / 2 ^ b % 2 ^ s ↔ 2 ^ b ∣ a / 2 ^ s := by
  obtain ⟨k, rfl⟩ := Nat.exists_eq_add_of_le inside
  have power : 0 < 2 ^ b := by positivity
  have upper : a / 2 ^ (b + k) % 2 ^ b = 0 ↔ 2 ^ b ∣ a / 2 ^ (b + k) := Nat.dvd_iff_mod_eq_zero.symm
  have cut : a / 2 ^ b % 2 ^ (b + k) = a % 2 ^ (b + k) / 2 ^ b + 2 ^ k * (a / 2 ^ (b + k) % 2 ^ b) := by
    have factors (n : Nat) : 2 ^ (b + k) * n = 2 ^ b * (2 ^ k * n) := by rw [pow_add, Nat.mul_assoc]
    rw [← Nat.mod_mul_right_div_self, Nat.mul_comm (2 ^ b), Nat.mod_mul, factors, Nat.add_mul_div_left _ _ power]
  rw [cut, ← upper]
  have scale : 0 < 2 ^ k := by positivity
  constructor
  · intro same
    have zero : 2 ^ k * (a / 2 ^ (b + k) % 2 ^ b) = 0 := by omega
    exact (Nat.mul_eq_zero.mp zero).resolve_left scale.ne'
  · intro zero
    rw [zero]
    rfl

theorem testBit_shiftLeft {v : UInt64} {n : Nat} (short : n < 64) (i : Nat) :
    (v <<< n.toUInt64).toNat.testBit i = (decide (i < 64) && decide (n ≤ i) && v.toNat.testBit (i - n)) := by
  rw [UInt64.toNat_shiftLeft, toNat_toUInt64 short, Nat.mod_eq_of_lt short, Nat.testBit_mod_two_pow,
    Nat.testBit_shiftLeft, Bool.and_assoc]

theorem testBit_shiftRight {v : UInt64} {n : Nat} (short : n < 64) (i : Nat) :
    (v >>> n.toUInt64).toNat.testBit i = v.toNat.testBit (n + i) := by
  rw [UInt64.toNat_shiftRight, toNat_toUInt64 short, Nat.mod_eq_of_lt short, Nat.testBit_shiftRight]

theorem testBit_mod_bit {v : UInt64} {n : Nat} (short : n < 64) (i : Nat) :
    (v % bit n.toUInt64).toNat.testBit i = (decide (i < n) && v.toNat.testBit i) := by
  rw [UInt64.toNat_mod, toNat_bit short, Nat.testBit_mod_two_pow]

/-- The bit before the one `n` counts, under any count. -/
theorem toNat_bit_sub_one (n : Nat) : (bit (n.toUInt64 - 1)).toNat = 2 ^ ((n + 63) % 64) := by
  have shift : (n.toUInt64 - 1).toNat % 64 = (n + 63) % 64 := by
    have low : n.toUInt64.toNat = n % 2 ^ 64 := by simp
    rw [UInt64.toNat_sub, low, UInt64.toNat_one]
    omega
  have small : 2 ^ ((n + 63) % 64) < 2 ^ 64 := Nat.pow_lt_pow_right (by omega) (Nat.mod_lt _ (by omega))
  rw [bit, UInt64.toNat_shiftLeft, shift, UInt64.toNat_one, Nat.one_shiftLeft, Nat.mod_eq_of_lt small]

theorem lt_iff_testBit {a b : Nat} :
    a < b ↔ ∃ i, a.testBit i = false ∧ b.testBit i = true ∧ ∀ j, i < j → a.testBit j = b.testBit j := by
  constructor
  · intro less
    obtain ⟨i, set, above⟩ := Nat.exists_most_significant_bit (mt Nat.xor_eq_zero_iff.mp (Nat.ne_of_lt less))
    have same (j : Nat) (high : i < j) : a.testBit j = b.testBit j := by simpa using above j high
    cases bit : a.testBit i with
    | false => exact ⟨i, bit, by simpa [bit] using set, same⟩
    | true =>
      have clear : b.testBit i = false := by simpa [bit] using set
      exact absurd (Nat.lt_of_testBit i clear bit fun j high => (same j high).symm) (Nat.lt_asymm less)
  · intro differ
    obtain ⟨i, clear, set, same⟩ := differ
    exact Nat.lt_of_testBit i clear set same

theorem mod_lt_mod_iff_testBit {a b m : Nat} : a % 2 ^ m < b % 2 ^ m ↔
    ∃ i < m, a.testBit i = false ∧ b.testBit i = true ∧ ∀ j, i < j → j < m → a.testBit j = b.testBit j := by
  rw [lt_iff_testBit]
  simp only [Nat.testBit_mod_two_pow]
  constructor
  · intro differ
    obtain ⟨i, clear, set, same⟩ := differ
    obtain ⟨inside, set⟩ := (Bool.and_eq_true _ _).mp set
    have inside := of_decide_eq_true inside
    refine ⟨i, inside, by simpa [inside] using clear, set, fun j high low => by simpa [low] using same j high⟩
  · intro differ
    obtain ⟨i, inside, clear, set, same⟩ := differ
    refine ⟨i, by simp [clear], by simp [inside, set], fun j high => ?_⟩
    by_cases low : j < m
    · rw [same j high low]
    · simp [low]

/-- The bits from `s` up to `t`. -/
theorem testBit_mask_and_not_mask {s t : Nat} (widthS : s ≤ 64) (widthT : t ≤ 64) (i : Nat) :
    (mask t &&& ~~~mask s).toNat.testBit i = (decide (i < t) && decide (s ≤ i)) := by
  have flipped : (~~~mask s).toNat = 2 ^ 64 - ((2 ^ s - 1) + 1) := by
    rw [UInt64.toNat_not, toNat_mask widthS, UInt64.size]
    omega
  have small : 2 ^ s - 1 < 2 ^ 64 := by
    have : 2 ^ s ≤ 2 ^ 64 := Nat.pow_le_pow_right (by decide) widthS
    have : 1 ≤ 2 ^ s := Nat.one_le_two_pow
    omega
  rw [UInt64.toNat_and, Nat.testBit_and, toNat_mask widthT, flipped, Nat.testBit_two_pow_sub_succ small,
    Nat.testBit_two_pow_sub_one, Nat.testBit_two_pow_sub_one]
  rcases Nat.lt_or_ge i t with below | above
  · have opposite : decide (s ≤ i) = !decide (i < s) := by rw [← decide_not, decide_eq_decide, Nat.not_lt]
    simp [below, below.trans_le widthT, opposite]
  · simp [Nat.not_lt.mpr above]

theorem mask_and_not_mask_of_le {s t : Nat} (widthS : s ≤ 64) (narrow : t ≤ s) : mask t &&& ~~~mask s = 0 := by
  rw [← UInt64.toNat_inj]
  apply Nat.eq_of_testBit_eq
  intro i
  rw [testBit_mask_and_not_mask widthS (narrow.trans widthS), UInt64.toNat_zero, Nat.zero_testBit]
  rcases Nat.lt_or_ge i t with below | above
  · simp [below.trans_le narrow]
  · simp [Nat.not_lt.mpr above]

theorem and_mask_and {s : Nat} {m : UInt64} (small : m.toNat < 2 ^ s) (v : UInt64) : (v &&& mask s) &&& m = v &&& m := by
  rw [UInt64.and_assoc, UInt64.and_comm (mask s), and_mask_of_lt small]

end Panopticon.Library.Word
