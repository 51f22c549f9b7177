import Panopticon.Proofs.WriteRegister

/-! Register views of amd64. A write to one part of a register goes to every part that overlaps
it, bit by bit; the parts stay slices of the 64 bits as long as the value fits the part. -/

namespace Panopticon.Proofs.Aliasing
open Panopticon.Library WriteRegister
open Amd64.Semantic (Variants keepMask keepLongMask writeReg regVariants registerFamilies)

def long (v : Variants) (ρ : Valuation) : Nat := (v.reg64.toRvalue.bits ρ).value

/-- Every part that exists holds its slice of the 64 bits. -/
structure Consistent (v : Variants) (ρ : Valuation) : Prop where
  low : v.reg8l.toRvalue.Denotes ρ (.ofNat 8 (long v ρ))
  high : v.reg8h.toRvalue.Denotes ρ (.ofNat 8 (long v ρ / 2 ^ 8))
  word : v.reg16.toRvalue.Denotes ρ (.ofNat 16 (long v ρ))
  double : v.reg32.toRvalue.Denotes ρ (.ofNat 32 (long v ρ))

/-- The parts of a register, from the low byte up. -/
def parts (v : Variants) : List Lvalue := [v.reg8l, v.reg8h, v.reg16, v.reg32, v.reg64]

/-- The view takes in this bit of the register. -/
def covers (view : View) (i : Nat) : Bool := view.lo ≤ i && i < view.size + view.lo

/-- A mask that keeps what lies outside of the view, of `s` bits from `offset` on. -/
def Masks (view : View) (msk full : UInt64) (s offset : Nat) : Prop :=
  msk < full ∧ ∀ i < s, msk.toNat.testBit i = !covers view (i + offset)

instance (view : View) (msk full : UInt64) (s offset : Nat) : Decidable (Masks view msk full s offset) :=
  inferInstanceAs (Decidable (_ ∧ _))

theorem masks (view : View) :
    (view ≠ .high → Masks view (keepMask 0xff 8 view.lo (view.size + view.lo)) 0xff 8 0) ∧
    (view ≠ .low → Masks view (keepMask 0xffff 16 view.lo (view.size + view.lo) >>> 8) 0xff 8 8) ∧
    Masks view (keepMask 0xffff 16 view.lo (view.size + view.lo)) 0xffff 16 0 ∧
    Masks view (keepMask 0xffffffff 32 view.lo (view.size + view.lo)) 0xffffffff 32 0 ∧
    (view ≠ .double → Masks view (keepLongMask view.lo (view.size + view.lo)) 0xffffffffffffffff 64 0) := by
  cases view <;> decide

/-- What a write leaves in the parts, by their bits. The byte beside a byte is not written at all. -/
structure Places (view : View) (value : Nat) (l h w d q : String) (before after : Valuation) : Prop where
  low : l ≠ "" → ∀ i < 8, (after l none).testBit i =
    if view = .high then (before l none).testBit i
    else value.testBit i || (!covers view i && (before l none).testBit i)
  high : h ≠ "" → ∀ i < 8, (after h none).testBit i =
    if view = .low then (before h none).testBit i
    else value.testBit (i + 8) || (!covers view (i + 8) && (before h none).testBit i)
  word : ∀ i < 16, (after w none).testBit i = (value.testBit i || (!covers view i && (before w none).testBit i))
  double : ∀ i < 32, (after d none).testBit i = (value.testBit i || (!covers view i && (before d none).testBit i))
  long : ∀ i < 64, (after q none).testBit i =
    (value.testBit i || (view ≠ .double && !covers view i && (before q none).testBit i))

section Parts

variable {view : View} {value : Nat} {l h w d q : String} {before after : Valuation}

theorem Masks.testBit {msk full : UInt64} {s offset old new i : Nat} (masks : Masks view msk full s offset) (inside : i < s) :
    (merged msk full s old new).testBit i = (new.testBit i || (!covers view (i + offset) && old.testBit i)) := by
  rw [merged, if_pos masks.1, Nat.testBit_mod_two_pow, Nat.testBit_or, Nat.testBit_and, masks.2 i inside]
  simp [inside, Bool.or_comm, Bool.and_comm]

theorem places (merges : Merges view.lo (view.size + view.lo) value l h w d q before after) :
    Places view value l h w d q before after := by
  obtain ⟨maskL, maskH, maskW, maskD, maskQ⟩ := masks view
  constructor
  · intro present i inside
    rw [merges.low present]
    by_cases upper : view = .high
    · rw [if_pos upper, if_neg (by rw [upper]; decide)]
    · rw [if_neg upper, if_pos (by cases view <;> simp_all [View.lo]), (maskL upper).testBit inside, add_zero]
  · intro present i inside
    rw [merges.high present]
    by_cases lower : view = .low
    · rw [if_pos lower, if_neg (by rw [lower]; decide)]
    · rw [if_neg lower, if_pos (by cases view <;> simp_all [View.lo, View.size]), (maskH lower).testBit inside,
        Nat.testBit_div_two_pow]
  · intro i inside
    rw [merges.word, if_pos (by cases view <;> decide), maskW.testBit inside, add_zero]
  · intro i inside
    rw [merges.double, if_pos (by cases view <;> decide), maskD.testBit inside, add_zero]
  · intro i inside
    rw [merges.long, if_pos (by cases view <;> decide)]
    by_cases half : view = .double
    · rw [half, if_pos (by decide), Nat.testBit_mod_two_pow]
      simp [inside]
    · rw [if_neg (by cases view <;> simp_all [View.lo, View.size]), (maskQ half).testBit inside, add_zero]
      simp [half]

private theorem denotes_slice_iff {ρ : Valuation} {name : String} {s offset m : Nat} :
    (Rvalue.var name none 0 s).Denotes ρ (.ofNat s (m / 2 ^ offset)) ↔
      ∀ i < s, (ρ name none).testBit i = m.testBit (i + offset) := by
  have form : (Rvalue.var name none 0 s).Denotes ρ (.ofNat s (m / 2 ^ offset)) ↔
      m / 2 ^ offset % 2 ^ s = ρ name none % 2 ^ s := by
    simp [Rvalue.Denotes, Rvalue.denote, Bits.ofNat_eq_iff]
  rw [form]
  constructor
  · intro same i inside
    have bit := congrArg (·.testBit i) same
    simpa [Nat.testBit_mod_two_pow, Nat.testBit_div_two_pow, inside, eq_comm] using bit
  · intro bits
    apply Nat.eq_of_testBit_eq
    intro i
    rw [Nat.testBit_mod_two_pow, Nat.testBit_mod_two_pow, Nat.testBit_div_two_pow]
    by_cases inside : i < s
    · rw [bits i inside]
    · simp [inside]

theorem testBit_long {ρ : Valuation} {i : Nat} (inside : i < 64) :
    (long (.named l h w d q) ρ).testBit i = (ρ q none).testBit i := by
  simp only [long, Variants.named, Lvalue.toRvalue, Rvalue.bits, Rvalue.denote, Option.getD_some, Bits.value_ofNat,
    pow_zero, Nat.div_one, Nat.testBit_mod_two_pow, inside, decide_true, Bool.true_and]

theorem part_iff {ρ : Valuation} (name : String) (s offset : Nat) (inside : s + offset ≤ 64) :
    (Rvalue.var name none 0 s).Denotes ρ (.ofNat s (long (.named l h w d q) ρ / 2 ^ offset)) ↔
      ∀ i < s, (ρ name none).testBit i = (ρ q none).testBit (i + offset) := by
  rw [denotes_slice_iff]
  refine forall₂_congr fun i below => ?_
  rw [testBit_long (by omega)]

theorem byte_iff {ρ : Valuation} (name : String) (offset : Nat) (inside : 8 + offset ≤ 64) :
    (if name = "" then Lvalue.undefined else .var name none 8).toRvalue.Denotes ρ
        (.ofNat 8 (long (.named l h w d q) ρ / 2 ^ offset)) ↔
      (name ≠ "" → ∀ i < 8, (ρ name none).testBit i = (ρ q none).testBit (i + offset)) := by
  split
  next absent => simp [Lvalue.toRvalue, Rvalue.Denotes, Rvalue.denote, absent]
  next present =>
    rw [Lvalue.toRvalue, part_iff name 8 offset inside]
    simp [present]

theorem consistent_iff {ρ : Valuation} : Consistent (.named l h w d q) ρ ↔
    (l ≠ "" → ∀ i < 8, (ρ l none).testBit i = (ρ q none).testBit i) ∧
    (h ≠ "" → ∀ i < 8, (ρ h none).testBit i = (ρ q none).testBit (i + 8)) ∧
    (∀ i < 16, (ρ w none).testBit i = (ρ q none).testBit i) ∧
    ∀ i < 32, (ρ d none).testBit i = (ρ q none).testBit i := by
  have low := byte_iff (l := l) (h := h) (w := w) (d := d) (q := q) (ρ := ρ) l 0 (by decide)
  have high := byte_iff (l := l) (h := h) (w := w) (d := d) (q := q) (ρ := ρ) h 8 (by decide)
  have word := part_iff (l := l) (h := h) (w := w) (d := d) (q := q) (ρ := ρ) w 16 0 (by decide)
  have double := part_iff (l := l) (h := h) (w := w) (d := d) (q := q) (ρ := ρ) d 32 0 (by decide)
  simp only [pow_zero, Nat.div_one, add_zero] at low word double
  rw [← low, ← high, ← word, ← double]
  constructor
  · intro holds
    obtain ⟨low, high, word, double⟩ := holds
    exact ⟨low, high, word, double⟩
  · intro holds
    obtain ⟨low, high, word, double⟩ := holds
    exact ⟨low, high, word, double⟩

/-- The bits of the value outside of the view are set in the register already, and kept. -/
def Absorbed (view : View) (value old : Nat) : Prop :=
  ∀ i < 64, value.testBit i = true → covers view i = true ∨ view ≠ .double ∧ old.testBit i = true

/-- Outside of the view the register is as it was, or cleared after a write of 32 bits. -/
def Framed (view : View) (old new : Nat) : Prop :=
  ∀ i < 64, covers view i = false → new.testBit i = (view ≠ .double && old.testBit i)

theorem Places.framed_iff (places : Places view value l h w d q before after) :
    Framed view (before q none) (after q none) ↔ Absorbed view value (before q none) := by
  refine forall₂_congr fun i inside => ?_
  rw [places.long i inside]
  by_cases half : view = .double <;> cases covers view i <;> cases value.testBit i <;>
    cases (before q none).testBit i <;> simp [half]

theorem Places.consistent (places : Places view value l h w d q before after)
    (absorbed : Absorbed view value (before q none)) (consistent : Consistent (.named l h w d q) before) :
    Consistent (.named l h w d q) after := by
  obtain ⟨low, high, word, double⟩ := consistent_iff.mp consistent
  -- a write of 32 bits takes in all the parts but the largest
  have wide : ∀ i < 32, view = .double → covers view i = true := by
    rintro i inside rfl
    simpa [covers, View.lo, View.size] using inside
  refine consistent_iff.mpr ⟨?_, ?_, ?_, ?_⟩
  · intro present i inside
    have taken := absorbed i (by omega)
    have wide := wide i (by omega)
    have beside : view = .high → covers view i = false := by
      rintro rfl
      have below : ¬8 ≤ i := by omega
      simp [covers, View.lo, below]
    rw [places.low present i inside, places.long i (by omega), low present i inside]
    generalize value.testBit i = new, (before q none).testBit i = old, covers view i = within at *
    cases new <;> cases old <;> cases within <;> cases view <;> simp at taken wide beside ⊢
  · intro present i inside
    have taken := absorbed (i + 8) (by omega)
    have wide := wide (i + 8) (by omega)
    have beside : view = .low → covers view (i + 8) = false := by
      rintro rfl
      simp [covers, View.lo, View.size]
    rw [places.high present i inside, places.long (i + 8) (by omega), high present i inside]
    generalize value.testBit (i + 8) = new, (before q none).testBit (i + 8) = old, covers view (i + 8) = within at *
    cases new <;> cases old <;> cases within <;> cases view <;> simp at taken wide beside ⊢
  · intro i inside
    have wide := wide i (by omega)
    rw [places.word i inside, places.long i (by omega), word i inside]
    generalize covers view i = within at *
    cases within <;> cases view <;> simp at wide ⊢
  · intro i inside
    have wide := wide i inside
    rw [places.double i inside, places.long i (by omega), double i inside]
    generalize covers view i = within at *
    cases within <;> cases view <;> simp at wide ⊢

theorem Places.of_same {middle : Valuation} (places : Places view value l h w d q middle after)
    (same : ∀ name ∈ [l, h, w, d, q], middle name none = before name none) : Places view value l h w d q before after := by
  constructor
  · rw [← same l (by simp)]
    exact places.low
  · rw [← same h (by simp)]
    exact places.high
  · rw [← same w (by simp)]
    exact places.word
  · rw [← same d (by simp)]
    exact places.double
  · rw [← same q (by simp)]
    exact places.long

theorem absorbed_of_lt {v old : Nat} (fits : v < 2 ^ view.size) : Absorbed view (v * 2 ^ view.lo) old := by
  intro i _ set
  left
  rw [Nat.testBit_mul_two_pow, Bool.and_eq_true, decide_eq_true_eq] at set
  have below : i - view.lo < view.size := by
    by_contra above
    rw [Nat.testBit_lt_two_pow (fits.trans_le (Nat.pow_le_pow_right (by decide) (Nat.not_lt.mp above)))] at set
    exact absurd set.2 (by decide)
  simp only [covers, Bool.and_eq_true, decide_eq_true_eq]
  omega

end Parts

def found (v : Variants) : Lvalue → Bool
  | .undefined => true
  | .var name subscript _ => subscript = none && regVariants name = some v

theorem found_parts : ∀ family ∈ registerFamilies, ∀ part ∈ parts family.2, found family.2 part = true := by
  decide

theorem writeReg_places {family : List String × Variants} (listed : family ∈ registerFamilies) {part : Lvalue} {n : Nat}
    (member : part ∈ parts family.2) (sized : part.size = some n) :
    ∃ (view : View) (l h w d q : String), family.2 = .named l h w d q ∧ Fresh l h w d q ∧
      part = .var (view.name l h w d q) none view.size ∧ view.Exists l h w d q ∧
      ∀ {ρ : Valuation} {val : Rvalue} {x : Bits}, val.denote ρ = some x → x.size ≠ 0 → x.size ≤ 64 → ∀ sz,
        Emits (writeReg part.toRvalue val sz) ρ fun after =>
          Places view (x.value * 2 ^ view.lo) l h w d q ρ after ∧
          after (view.name l h w d q) none = x.value % 2 ^ view.size ∧ Keeps ["val", l, h, w, d, q] ρ after := by
  obtain ⟨l, h, w, d, q, form, names⟩ := registerFamilies_fresh family listed
  have known := found_parts family listed part member
  cases part with
  | undefined => cases sized
  | var name subscript size =>
    obtain ⟨rfl, variants⟩ : subscript = none ∧ regVariants name = some family.2 := by simpa [found] using known
    rw [form] at member variants
    have place : Lvalue.var name none size ∈ [(Variants.named l h w d q).reg8l, (Variants.named l h w d q).reg8h,
        .var w none 16, .var d none 32, .var q none 64] := member
    obtain ⟨view, rfl, rfl, present, upper⟩ := view_of_place names place
    refine ⟨view, l, h, w, d, q, form, names, rfl, present, fun stands positive width sz => ?_⟩
    obtain ⟨stmts, after, code, final, merges, kept⟩ := variants_does stands positive width names present
    refine ⟨stmts, after, ?_, final, places merges, merges.dest present, kept⟩
    change writeReg (.var _ none 0 _) _ sz = _
    simp only [writeReg, variants, upper, zero_add, code]
    rfl

theorem named_parts {l h w d q name : String} (member : name ∈ [l, h, w, d, q]) (present : name ≠ "") :
    ∃ s, Lvalue.var name none s ∈ parts (.named l h w d q) := by
  simp only [List.mem_cons, List.not_mem_nil, or_false] at member
  rcases member with rfl | rfl | rfl | rfl | rfl
  · exact ⟨8, by simp [parts, Variants.named, present]⟩
  · exact ⟨8, by simp [parts, Variants.named, present]⟩
  · exact ⟨16, by simp [parts, Variants.named]⟩
  · exact ⟨32, by simp [parts, Variants.named]⟩
  · exact ⟨64, by simp [parts, Variants.named]⟩

theorem regVariants_none : regVariants "" = none ∧ regVariants "val" = none := by decide

theorem parts_untouched {ρ after : Valuation} {family other : List String × Variants} {l h w d q : String}
    (listed : family ∈ registerFamilies) (listed' : other ∈ registerFamilies) (apart : other.2 ≠ family.2)
    (form : family.2 = .named l h w d q) (kept : Keeps ["val", l, h, w, d, q] ρ after) :
    ∀ lv ∈ parts other.2, lv.toRvalue.denote after = lv.toRvalue.denote ρ := by
  intro lv member
  have known := found_parts other listed' lv member
  cases lv with
  | undefined => rfl
  | var name subscript size =>
    obtain ⟨rfl, variants⟩ : subscript = none ∧ regVariants name = some other.2 := by simpa [found] using known
    have fresh : name ∉ ["val", l, h, w, d, q] := by
      intro shared
      have present : name ≠ "" := by
        rintro rfl
        rw [regVariants_none.1] at variants
        cases variants
      rcases List.mem_cons.mp shared with rfl | shared
      · rw [regVariants_none.2] at variants
        cases variants
      · obtain ⟨s, part⟩ := named_parts shared present
        rw [← form] at part
        have also : regVariants name = some family.2 := by simpa [found] using found_parts family listed _ part
        exact apart (Option.some.inj (variants.symm.trans also))
    simp only [Lvalue.toRvalue, Rvalue.denote, kept name fresh]

theorem Consistent.of_untouched {v : Variants} {before after : Valuation} (consistent : Consistent v before)
    (same : ∀ lv ∈ parts v, lv.toRvalue.denote after = lv.toRvalue.denote before) : Consistent v after := by
  have wide : long v after = long v before := by rw [long, long, Rvalue.bits, Rvalue.bits, same _ (by simp [parts])]
  constructor
  · rw [Rvalue.Denotes, wide, same _ (by simp [parts])]
    exact consistent.low
  · rw [Rvalue.Denotes, wide, same _ (by simp [parts])]
    exact consistent.high
  · rw [Rvalue.Denotes, wide, same _ (by simp [parts])]
    exact consistent.word
  · rw [Rvalue.Denotes, wide, same _ (by simp [parts])]
    exact consistent.double

theorem start_eq {l h w d q : String} {view : View} (names : Fresh l h w d q) (present : view.Exists l h w d q) :
    (if Lvalue.var (view.name l h w d q) none view.size = (Variants.named l h w d q).reg8h then 8 else 0) = view.lo := by
  cases view with
  | high => exact if_pos (if_neg (present (.inr rfl))).symm
  | low =>
    refine if_neg fun same => ?_
    exact reg8h_ne _ (.inr (names.bytes (present (.inl rfl)))) (congrArg Lvalue.toRvalue same)
  | word | double | long =>
    refine if_neg fun same => ?_
    exact reg8h_ne (View.size _) (.inl (by decide)) (congrArg Lvalue.toRvalue same)

theorem part_width {family : List String × Variants} (listed : family ∈ registerFamilies) {part : Lvalue} {n : Nat}
    (member : part ∈ parts family.2) (sized : part.size = some n) : n ≠ 0 ∧ n ≤ 64 := by
  have all : ∀ family ∈ registerFamilies, ∀ part ∈ parts family.2, part.size ∈ [none, some 8, some 16, some 32, some 64] := by
    decide
  have width := all family listed part member
  rw [sized] at width
  simp at width
  omega

/-- Writing a part of a register of a size of its own: the registers stay consistent, the part holds the value, and the
rest of its register is as it was, or cleared after a write of 32 bits. -/
theorem writeReg_slices {family : List String × Variants} (listed : family ∈ registerFamilies) {part : Lvalue} {n : Nat}
    (member : part ∈ parts family.2) (sized : part.size = some n) {val : Rvalue} (same : val.size = some n)
    (ρ : Valuation) (sz : Nat) :
    let start := if part = family.2.reg8h then 8 else 0
    ∃ stmts, writeReg part.toRvalue val sz = .returns stmts ∧ Leads Statement.Steps stmts ρ fun after =>
      (∀ other ∈ registerFamilies, Consistent other.2 ρ → Consistent other.2 after) ∧
      part.toRvalue.denote after = val.denote ρ ∧
      (∀ i < 64, (long family.2 after).testBit i =
        if start ≤ i ∧ i < start + n then (val.bits ρ).value.testBit (i - start)
        else decide (n ≠ 32) && (long family.2 ρ).testBit i) ∧
      ∀ other ∈ registerFamilies, other.2 ≠ family.2 → ∀ lv ∈ parts other.2,
        lv.toRvalue.denote after = lv.toRvalue.denote ρ := by
  intro start
  obtain ⟨x, stands, size⟩ : ∃ x, val.denote ρ = some x ∧ x.size = n := by
    cases val <;> simp_all [Rvalue.size, Rvalue.denote]
  have bits : val.bits ρ = x := by rw [Rvalue.bits, stands, Option.getD_some]
  have known := part_width listed member sized
  obtain ⟨view, l, h, w, d, q, form, names, place, present, emits⟩ := writeReg_places listed member sized
  obtain ⟨stmts, after, code, final, places, dest, kept⟩ := emits stands (size ▸ known.1) (size ▸ known.2) sz
  have untouched : ∀ other ∈ registerFamilies, other.2 ≠ family.2 → ∀ lv ∈ parts other.2,
      lv.toRvalue.denote after = lv.toRvalue.denote ρ :=
    fun other listed' apart => parts_untouched listed listed' apart form kept
  subst place
  obtain rfl : n = view.size := (Option.some.inj sized).symm
  have absorbed : Absorbed view (x.value * 2 ^ view.lo) (ρ q none) := absorbed_of_lt (size ▸ x.small)
  have begins : start = view.lo := by
    rw [← start_eq names present, ← form]
  refine ⟨stmts, code, (leads_iff final).mpr ⟨?_, ?_, ?_, untouched⟩⟩
  · intro other listed' consistent
    by_cases own : other.2 = family.2
    · rw [own, form] at consistent ⊢
      exact places.consistent absorbed consistent
    · exact consistent.of_untouched (untouched other listed' own)
  · have whole : x.value % 2 ^ view.size % 2 ^ view.size = x.value := by
      rw [Nat.mod_mod, ← size, Nat.mod_eq_of_lt x.small]
    rw [stands, Lvalue.toRvalue, Rvalue.denote, dest, pow_zero, Nat.div_one]
    exact congrArg some (Bits.ext size.symm whole)
  · intro i inside
    rw [form, testBit_long inside, testBit_long inside, begins, bits]
    by_cases within : view.lo ≤ i ∧ i < view.lo + view.size
    · have covered : covers view i = true := by
        simp only [covers, Bool.and_eq_true, decide_eq_true_eq]
        omega
      rw [if_pos within, places.long i inside, covered, Nat.testBit_mul_two_pow]
      simp [within.1]
    · have apart : covers view i = false := by
        rw [← Bool.not_eq_true]
        simp only [covers, Bool.and_eq_true, decide_eq_true_eq]
        omega
      rw [if_neg within, places.framed_iff.mpr absorbed i inside apart]
      cases view <;> simp [View.size]

/-- The upper byte of a register, assigned a byte of another variable. -/
theorem writeReg_slices_high :
    let zero : Valuation := fun _ _ => 0
    let family := (["BL", "BH", "BX", "EBX", "RBX"], Variants.named "BL" "BH" "BX" "EBX" "RBX")
    ∃ stmts, writeReg (.var "BH" none 0 8) (.var "x" none 3 8) 8 = .returns stmts ∧
      Leads Statement.Steps stmts zero fun after =>
        (∀ other ∈ registerFamilies, Consistent other.2 zero → Consistent other.2 after) ∧
        (Rvalue.var "BH" none 0 8).denote after = (Rvalue.var "x" none 3 8).denote zero ∧
        (∀ i < 64, (long family.2 after).testBit i =
          if 8 ≤ i ∧ i < 8 + 8 then ((Rvalue.var "x" none 3 8).bits zero).value.testBit (i - 8)
          else decide (8 ≠ 32) && (long family.2 zero).testBit i) ∧
        ∀ other ∈ registerFamilies, other.2 ≠ family.2 → ∀ lv ∈ parts other.2,
          lv.toRvalue.denote after = lv.toRvalue.denote zero :=
  @writeReg_slices (["BL", "BH", "BX", "EBX", "RBX"], Variants.named "BL" "BH" "BX" "EBX" "RBX") (by decide)
    (.var "BH" none 8) 8 (by decide) rfl (.var "x" none 3 8) rfl _ 8

end Panopticon.Proofs.Aliasing
