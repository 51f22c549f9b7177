import Panopticon.Amd64.Semantic
import Panopticon.Execution

/-! Running generated code: which variables it sets and which it keeps. Assigning a register
of the amd64 leaves the value in it, in whichever part of a larger register it is. -/

namespace Panopticon.Proofs.WriteRegister
open Panopticon.Library

def Keeps (names : List String) (before after : Valuation) : Prop :=
  ∀ name ∉ names, after name none = before name none

/-- The code is generated, and run from `ρ` it ends in one state. -/
def Emits (code : Outcome String (List Statement)) (ρ : Valuation) (post : Valuation → Prop) : Prop :=
  ∃ stmts after, code = .returns stmts ∧ run stmts ρ = some after ∧ post after

theorem rreil_ok {stmts : List Statement} (checked : ∀ stmt ∈ stmts, stmt.sanityCheck = .ok ()) :
    rreil stmts = .ok stmts := by
  have all : stmts.forM Statement.sanityCheck = .ok () := by
    induction stmts with
    | nil => rfl
    | cons stmt rest ih =>
      rw [List.forall_mem_cons] at checked
      rw [List.forM_eq_forM, List.forM_cons, checked.1]
      exact ih checked.2
  rw [rreil, all]
  rfl

theorem emits_rreil {stmts : List Statement} {ρ : Valuation} {post : Valuation → Prop}
    (checked : ∀ stmt ∈ stmts, stmt.sanityCheck = .ok ()) (ends : ∃ after, run stmts ρ = some after ∧ post after) :
    Emits (.ofExcept (rreil stmts)) ρ post := by
  obtain ⟨after, final, holds⟩ := ends
  exact ⟨stmts, after, by rw [rreil_ok checked]; rfl, final, holds⟩

/-- The variables the code uses for itself, and the flags. -/
def temporaries : List String :=
  ["res", "cf", "SF", "ZF", "CF", "PF", "AF", "OF", "af1", "af2", "cf1", "cf2", "of1", "of2", "half_res", "val"]

open Amd64.Semantic (Variants loadValue shiftValue writePart keepMask keepLongMask writeReg regVariants
  registerFamilies)

section Registers

variable {ρ : Valuation} {l h w d q : String}

attribute [local simp] Statement.sanityCheck Statement.typecheck Statement.typecheckBinop Statement.typecheckUnop
  Operation.operands Operation.lift Operation.result Rvalue.size Lvalue.size Lvalue.toRvalue Rvalue.bits Rvalue.denote run
  Statement.next Valuation.assign

/-- The statements are generated, and run from `ρ` they end in one state. -/
def Does (code : Except String (List Statement)) (ρ : Valuation) (post : Valuation → Prop) : Prop :=
  ∃ stmts after, code = .ok stmts ∧ run stmts ρ = some after ∧ post after

theorem does_rreil {stmts : List Statement} {post : Valuation → Prop}
    (checked : ∀ stmt ∈ stmts, stmt.sanityCheck = .ok ()) (ends : ∃ after, run stmts ρ = some after ∧ post after) :
    Does (rreil stmts) ρ post := by
  obtain ⟨after, final, holds⟩ := ends
  exact ⟨stmts, after, rreil_ok checked, final, holds⟩

theorem does_nothing {post : Valuation → Prop} (holds : post ρ) : Does (.ok []) ρ post := ⟨[], ρ, rfl, rfl, holds⟩

/-- A register of `s` bits after `new` was put between the bits `msk` keeps. -/
def merged (msk full : UInt64) (s old new : Nat) : Nat :=
  if msk < full then (old &&& msk.toNat ||| new) % 2 ^ s else old

theorem merged_none {full : UInt64} (some : 0 < full) (s old new : Nat) : merged 0 full s old new = new % 2 ^ s := by
  simp [merged, some]

theorem merged_congr {msk full : UInt64} {s old new other : Nat} (same : new % 2 ^ s = other % 2 ^ s) :
    merged msk full s old new = merged msk full s old other := by
  rw [merged, merged, Nat.or_mod_two_pow, same, ← Nat.or_mod_two_pow]

theorem writePart_does {x : String} (offset s : Nat) {msk : UInt64} (full : UInt64) (positive : s ≠ 0) (some : 0 < full)
    (other : x ≠ "val") :
    Does (writePart (.var x none s) (.var "val" none offset s) msk full s) ρ fun after =>
      after x none = merged msk full s (ρ x none) (ρ "val" none / 2 ^ offset) ∧ Keeps [x] ρ after := by
  unfold writePart
  split
  next none =>
    apply does_rreil
    · simp [pure, Except.pure, bind, Except.bind, positive]
    rw [none, merged_none some]
    simp
    intro name other
    simp at other
    simp [other]
  next kept =>
    split
    next partial_ =>
      apply does_rreil
      · simp [pure, Except.pure, bind, Except.bind, positive]
      simp [merged, partial_, other.symm]
      constructor
      · simp only [Nat.or_mod_two_pow, Nat.and_mod_two_pow, Nat.mod_mod]
      intro name other
      simp at other
      simp [other]
    next whole =>
      apply does_nothing
      exact ⟨(if_neg whole).symm, fun _ _ => rfl⟩

private theorem writePart_missing {offset s : Nat} {msk full : UInt64} (positive : s ≠ 0) (whole : msk = 0) :
    Does (writePart .undefined (.var "val" none offset s) msk full s) ρ fun after => Keeps [] ρ after := by
  rw [writePart, if_pos whole]
  apply does_rreil
  · simp [pure, Except.pure, bind, Except.bind, positive]
  simp
  intro name _
  rfl

/-- Names under which the parts of one register are kept; the first two may be missing. -/
structure Fresh (l h w d q : String) : Prop where
  fresh : ∀ name ∈ [l, h, w, d, q], name ∉ temporaries
  bytes : l ≠ "" → l ≠ h
  low : l ∉ [w, d, q]
  high : h ∉ [w, d, q]
  distinct : [w, d, q].Nodup

/-- Each part with the value put to the bits `lo` up to `hi`. -/
structure Merges (lo hi value : Nat) (l h w d q : String) (before after : Valuation) : Prop where
  low : l ≠ "" → after l none =
    if lo ≤ 7 then merged (keepMask 0xff 8 lo hi) 0xff 8 (before l none) value else before l none
  high : h ≠ "" → after h none =
    if 9 ≤ hi ∧ lo ≤ 15 then merged (keepMask 0xffff 16 lo hi >>> 8) 0xff 8 (before h none) (value / 2 ^ 8)
    else before h none
  word : after w none =
    if lo ≤ 15 then merged (keepMask 0xffff 16 lo hi) 0xffff 16 (before w none) value else before w none
  double : after d none =
    if lo ≤ 31 then merged (keepMask 0xffffffff 32 lo hi) 0xffffffff 32 (before d none) value else before d none
  long : after q none =
    if lo ≤ 64 then
      if lo = 0 ∧ hi = 32 then value % 2 ^ 64
      else merged (keepLongMask lo hi) 0xffffffffffffffff 64 (before q none) value
    else before q none

theorem Keeps.trans {first second : List String} {before middle after : Valuation} (start : Keeps first before middle)
    (rest : Keeps second middle after) : Keeps (first ++ second) before after := by
  intro name other
  rw [List.mem_append, not_or] at other
  rw [rest name other.2, start name other.1]

theorem Keeps.mono {names more : List String} {before after : Valuation} (keeps : Keeps names before after)
    (subset : names ⊆ more) : Keeps more before after :=
  fun name other => keeps name fun member => other (subset member)

private theorem loadValue_does {val : Rvalue} {x : Bits} (stands : val.denote ρ = some x) (positive : x.size ≠ 0)
    (width : x.size ≤ 64) (lo hi : Nat) :
    Does (loadValue lo hi val) ρ fun after => after "val" none = x.value ∧ Keeps ["val"] ρ after := by
  have bound : x.value < 18446744073709551616 := x.small.trans_le (Nat.pow_le_pow_right (by decide) width)
  have bits : val.bits ρ = x := by rw [Rvalue.bits, stands, Option.getD_some]
  have size : val.size = some x.size := by
    cases val <;> simp at stands <;> simp [← stands]
  have defined : Rvalue.undefined ≠ val := by
    rintro rfl
    cases stands
  unfold loadValue
  split
  next full =>
    have long : x.size = 64 := by simpa [size, -Rvalue.size] using full.2.2
    apply does_rreil
    · simp [-Rvalue.size, pure, Except.pure, bind, Except.bind, size, long]
    simp [-Rvalue.bits, bits, defined]
    refine ⟨bound, ?_⟩
    intro name other
    simp at other
    simp [other]
  next =>
    apply does_rreil
    · simp [-Rvalue.size, pure, Except.pure, bind, Except.bind, size, positive]
    simp [-Rvalue.bits, bits, defined]
    refine ⟨bound, ?_⟩
    intro name other
    simp at other
    simp [other]

private theorem shiftValue_does {lo : Nat} (short : lo ≤ 30) : Does (shiftValue lo) ρ fun after =>
    after "val" none % 2 ^ 64 = ρ "val" none * 2 ^ lo % 2 ^ 64 ∧ Keeps ["val"] ρ after := by
  unfold shiftValue
  split
  · have shft : ((1 : Int32) <<< Int32.ofNat lo).toInt64.toUInt64.toNat = 2 ^ lo := by
      interval_cases lo <;> rfl
    apply does_rreil
    · simp [pure, Except.pure, bind, Except.bind]
    simp [shft]
    intro name other
    simp at other
    simp [other]
  next none =>
    obtain rfl : lo = 0 := by omega
    apply does_nothing
    exact ⟨by rw [pow_zero, mul_one], fun _ _ => rfl⟩

section Parts

variable {lo hi : Nat}

private theorem writeLow_does (other : l ≠ "val") (missing : l = "" → lo ≤ 7 → keepMask 0xff 8 lo hi = 0) :
    Does ((Variants.named l h w d q).writeLow lo hi) ρ fun after =>
      (l ≠ "" → after l none =
        if lo ≤ 7 then merged (keepMask 0xff 8 lo hi) 0xff 8 (ρ l none) (ρ "val" none) else ρ l none) ∧
      Keeps [l] ρ after := by
  unfold Variants.writeLow
  split
  next inside =>
    by_cases absent : l = ""
    · rw [show (Variants.named l h w d q).reg8l = .undefined from if_pos absent]
      obtain ⟨stmts, after, code, final, kept⟩ := writePart_missing (ρ := ρ) (s := 8) (by decide) (missing absent inside)
      exact ⟨stmts, after, code, final, fun present => absurd absent present, kept.mono (by simp)⟩
    · rw [show (Variants.named l h w d q).reg8l = .var l none 8 from if_neg absent]
      obtain ⟨stmts, after, code, final, written, kept⟩ :=
        writePart_does (ρ := ρ) 0 8 0xff (by decide) (by decide) other
      exact ⟨stmts, after, code, final, fun _ => by simpa using written, kept⟩
  next outside =>
    apply does_nothing
    exact ⟨fun _ => rfl, fun _ _ => rfl⟩

private theorem writeHigh_does (other : h ≠ "val") : Does ((Variants.named l h w d q).writeHigh lo hi) ρ fun after =>
    (h ≠ "" → after h none =
      if 9 ≤ hi ∧ lo ≤ 15 then
        merged (keepMask 0xffff 16 lo hi >>> 8) 0xff 8 (ρ h none) (ρ "val" none / 2 ^ 8)
      else ρ h none) ∧
    Keeps [h] ρ after := by
  unfold Variants.writeHigh
  by_cases absent : h = ""
  · have missing : (Variants.named l h w d q).reg8h = .undefined := if_pos absent
    rw [if_neg (by simp [missing])]
    apply does_nothing
    exact ⟨fun present => absurd absent present, fun _ _ => rfl⟩
  · have present : (Variants.named l h w d q).reg8h = .var h none 8 := if_neg absent
    rw [present]
    split
    next inside =>
      obtain ⟨stmts, after, code, final, written, kept⟩ :=
        writePart_does (ρ := ρ) 8 8 0xff (by decide) (by decide) other
      exact ⟨stmts, after, code, final, fun _ => by rw [written, if_pos ⟨inside.1, inside.2.1⟩], kept⟩
    next outside =>
      apply does_nothing
      exact ⟨fun _ => (if_neg fun inside => outside ⟨inside.1, inside.2, by simp⟩).symm, fun _ _ => rfl⟩

theorem whole_does {x : String} {s : Nat} {inside : Prop} [Decidable inside] {msk full : UInt64} (positive : s ≠ 0)
    (some : 0 < full) (other : x ≠ "val") :
    Does (if inside then writePart (.var x none s) (.var "val" none 0 s) msk full s else .ok []) ρ fun after =>
      (after x none = if inside then merged msk full s (ρ x none) (ρ "val" none) else ρ x none) ∧ Keeps [x] ρ after := by
  split
  next =>
    obtain ⟨stmts, after, code, final, written, kept⟩ := writePart_does (ρ := ρ) 0 s full positive some other
    exact ⟨stmts, after, code, final, by simpa using written, kept⟩
  next outside =>
    apply does_nothing
    exact ⟨rfl, fun _ _ => rfl⟩

private theorem writeLong_does (other : q ≠ "val") : Does ((Variants.named l h w d q).writeLong lo hi) ρ fun after =>
    (after q none =
      if lo ≤ 64 then
        if lo = 0 ∧ hi = 32 then ρ "val" none % 2 ^ 64
        else merged (keepLongMask lo hi) 0xffffffffffffffff 64 (ρ q none) (ρ "val" none)
      else ρ q none) ∧
    Keeps [q] ρ after := by
  unfold Variants.writeLong
  split
  next =>
    split
    · apply does_rreil
      · simp [pure, Except.pure, bind, Except.bind, Variants.named]
      simp [Variants.named]
      intro name other
      simp at other
      simp [other]
    next partial_ =>
      obtain ⟨stmts, after, code, final, written, kept⟩ :=
        writePart_does (ρ := ρ) (x := q) 0 64 0xffffffffffffffff (by decide) (by decide) other
      exact ⟨stmts, after, code, final, by simpa using written, kept⟩
  next outside =>
    apply does_nothing
    exact ⟨rfl, fun _ _ => rfl⟩

end Parts

private theorem write_does {lo hi : Nat} {val : Rvalue} {x : Bits} (stands : val.denote ρ = some x) (positive : x.size ≠ 0)
    (width : x.size ≤ 64) (short : lo ≤ 30) (names : Fresh l h w d q)
    (missing : l = "" → lo ≤ 7 → keepMask 0xff 8 lo hi = 0) :
    Does ((Variants.named l h w d q).write lo hi val) ρ fun after =>
      Merges lo hi (x.value * 2 ^ lo) l h w d q ρ after ∧ Keeps ["val", l, h, w, d, q] ρ after := by
  have fresh : ∀ name ∈ [l, h, w, d, q], name ≠ "val" := by
    rintro name member rfl
    exact names.fresh _ member (by decide)
  obtain ⟨load, ρ1, code1, run1, loaded, kept1⟩ := loadValue_does stands positive width lo hi
  obtain ⟨shift, ρ2, code2, run2, shifted, kept2⟩ := shiftValue_does (ρ := ρ1) short
  obtain ⟨low, ρ3, code3, run3, writtenL, kept3⟩ :=
    writeLow_does (ρ := ρ2) (h := h) (w := w) (d := d) (q := q) (fresh l (by simp)) missing
  obtain ⟨high, ρ4, code4, run4, writtenH, kept4⟩ : Does ((Variants.named l h w d q).writeHigh lo hi) ρ3 _ :=
    writeHigh_does (fresh h (by simp))
  obtain ⟨word, ρ5, code5, run5, writtenW, kept5⟩ : Does ((Variants.named l h w d q).writeWord lo hi) ρ4 _ :=
    whole_does (by decide) (by decide) (fresh w (by simp))
  obtain ⟨double, ρ6, code6, run6, writtenD, kept6⟩ : Does ((Variants.named l h w d q).writeDouble lo hi) ρ5 _ :=
    whole_does (by decide) (by decide) (fresh d (by simp))
  obtain ⟨long, ρ7, code7, run7, writtenQ, kept7⟩ : Does ((Variants.named l h w d q).writeLong lo hi) ρ6 _ :=
    writeLong_does (fresh q (by simp))
  have value : ρ2 "val" none % 2 ^ 64 = x.value * 2 ^ lo % 2 ^ 64 := by rw [shifted, loaded]
  -- the parts are written one after the other, none of them touches the value or what was written before
  have val3 := kept3 "val" (by simpa using (fresh l (by simp)).symm)
  have val4 := kept4 "val" (by simpa using (fresh h (by simp)).symm)
  have val5 := kept5 "val" (by simpa using (fresh w (by simp)).symm)
  have val6 := kept6 "val" (by simpa using (fresh d (by simp)).symm)
  have early : ∀ name ∈ [l, h, w, d, q], ρ2 name none = ρ name none := by
    intro name member
    have other := fresh name member
    rw [kept2 name (by simpa using other), kept1 name (by simpa using other)]
  refine ⟨load ++ shift ++ low ++ high ++ word ++ double ++ long, ρ7, ?_, ?_, ?_, ?_⟩
  · simp only [Variants.write, code1, code2, code3, code4, code5, code6, code7]
    rfl
  · simp [run_append, run1, run2, run3, run4, run5, run6, run7]
  · obtain ⟨_, bytes, low, high, distinct⟩ := names
    simp only [List.mem_cons, List.not_mem_nil, or_false, not_or, List.nodup_cons, List.nodup_nil, not_false_eq_true,
      and_true] at low high distinct
    have cut : ∀ s ≤ 64, ρ2 "val" none % 2 ^ s = x.value * 2 ^ lo % 2 ^ s := by
      intro s inside
      have divides : 2 ^ s ∣ 2 ^ 64 := pow_dvd_pow 2 inside
      rw [← Nat.mod_mod_of_dvd _ divides, value, Nat.mod_mod_of_dvd _ divides]
    constructor
    · intro present
      rw [kept7 l (by simpa using low.2.2), kept6 l (by simpa using low.2.1), kept5 l (by simpa using low.1),
        kept4 l (by simpa using bytes present), writtenL present, early l (by simp), merged_congr (cut 8 (by decide))]
    · intro present
      have apart : h ≠ l := by
        rintro rfl
        exact bytes present rfl
      have byte : ρ2 "val" none / 2 ^ 8 % 2 ^ 8 = x.value * 2 ^ lo / 2 ^ 8 % 2 ^ 8 := by
        rw [← Nat.mod_mul_right_div_self, ← Nat.mod_mul_right_div_self]
        exact congrArg (· / 2 ^ 8) (cut 16 (by decide))
      rw [kept7 h (by simpa using high.2.2), kept6 h (by simpa using high.2.1), kept5 h (by simpa using high.1),
        writtenH present, kept3 h (by simpa using apart), early h (by simp), val3, merged_congr byte]
    · rw [kept7 w (by simpa using distinct.1.2), kept6 w (by simpa using distinct.1.1), writtenW,
        kept4 w (by simpa using Ne.symm high.1), kept3 w (by simpa using Ne.symm low.1), early w (by simp), val4, val3,
        merged_congr (cut 16 (by decide))]
    · rw [kept7 d (by simpa using distinct.2), writtenD, kept5 d (by simpa using Ne.symm distinct.1.1),
        kept4 d (by simpa using Ne.symm high.2.1), kept3 d (by simpa using Ne.symm low.2.1), early d (by simp), val5, val4,
        val3, merged_congr (cut 32 (by decide))]
    · rw [writtenQ, kept6 q (by simpa using Ne.symm distinct.2), kept5 q (by simpa using Ne.symm distinct.1.2),
        kept4 q (by simpa using Ne.symm high.2.2), kept3 q (by simpa using Ne.symm low.2.2), early q (by simp), val6, val5,
        val4, val3, value, merged_congr value]
  · refine (((((kept1.trans kept2).trans kept3).trans kept4).trans kept5).trans kept6).trans kept7 |>.mono ?_
    simp

theorem registerFamilies_fresh : ∀ family ∈ registerFamilies,
    ∃ l h w d q, family.2 = .named l h w d q ∧ Fresh l h w d q := by
  simp only [registerFamilies, List.forall_mem_cons, List.not_mem_nil, false_implies, implies_true, and_true]
  refine ⟨?_, ?_, ?_, ?_, ?_, ?_, ?_, ?_, ?_, ?_, ?_, ?_, ?_, ?_, ?_, ?_, ?_⟩
  all_goals exact ⟨_, _, _, _, _, rfl, by constructor <;> decide⟩

private theorem reg_mem_variants (reg : Amd64.Register) :
    ∀ v ∈ regVariants reg.name, Lvalue.var reg.name none reg.width ∈ [v.reg8l, v.reg8h, v.reg16, v.reg32, v.reg64] := by
  cases reg <;> decide

theorem name_fresh (reg : Amd64.Register) : reg.name ∉ temporaries := by
  cases reg <;> decide

def flags : List String := ["CF", "OF", "ZF", "SF", "PF", "AF"]

/-- The sum is in the destination, and the flags are as they were. -/
def Assigned (name : String) (n : Nat) (before after : Valuation) : Prop :=
  after name none = before "res" none % 2 ^ n ∧ ∀ flag ∈ flags, after flag none = before flag none

theorem Does.emits {code : Except String (List Statement)} {post stronger : Valuation → Prop}
    (does : Does code ρ stronger) (implies : ∀ after, stronger after → post after) : Emits (.ofExcept code) ρ post := by
  obtain ⟨stmts, after, generated, final, holds⟩ := does
  exact ⟨stmts, after, by rw [generated]; rfl, final, implies after holds⟩

theorem Fresh.flags_kept (names : Fresh l h w d q) {before after : Valuation}
    (kept : Keeps ["val", l, h, w, d, q] before after) : ∀ name ∈ flags, after name none = before name none := by
  intro name member
  apply kept
  have temporary : name ∈ temporaries := (by decide : flags ⊆ temporaries) member
  intro other
  rcases List.mem_cons.mp other with rfl | part
  · exact absurd member (by decide)
  · exact names.fresh name part temporary

/-- Where a part lies in its register. -/
inductive View where
  | low
  | high
  | word
  | double
  | long
  deriving DecidableEq, Repr

namespace View

def size : View → Nat
  | .low | .high => 8
  | .word => 16
  | .double => 32
  | .long => 64

def lo : View → Nat
  | .high => 8
  | _ => 0

def name (l h w d q : String) : View → String
  | .low => l
  | .high => h
  | .word => w
  | .double => d
  | .long => q

/-- The bytes do not exist in every register. -/
def Exists (l h w d q : String) (view : View) : Prop := view = .low ∨ view = .high → view.name l h w d q ≠ ""

end View

theorem reg8h_ne {name : String} (size : Nat) (other : size ≠ 8 ∨ name ≠ h) :
    Rvalue.var name none 0 size ≠ (Variants.named l h w d q).reg8h.toRvalue := by
  simp only [Variants.named]
  split
  · simp
  · rcases other with size | name
    · simp [size]
    · simp [name]

theorem view_of_place {name : String} {n : Nat} (names : Fresh l h w d q)
    (place : Lvalue.var name none n ∈ [(Variants.named l h w d q).reg8l, (Variants.named l h w d q).reg8h,
      .var w none 16, .var d none 32, .var q none 64]) :
    ∃ view : View, name = view.name l h w d q ∧ n = view.size ∧ view.Exists l h w d q ∧
      (if Rvalue.var name none 0 n = (Variants.named l h w d q).reg8h.toRvalue then 8 else 0) = view.lo := by
  simp only [List.mem_cons, List.not_mem_nil, or_false] at place
  rcases place with place | place | place | place | place
  · by_cases absent : l = ""
    · simp [Variants.named, absent] at place
    · obtain ⟨rfl, rfl⟩ : name = l ∧ n = 8 := by simpa [Variants.named, absent] using place
      exact ⟨.low, rfl, rfl, fun _ => absent, if_neg (reg8h_ne _ (.inr (names.bytes absent)))⟩
  · by_cases absent : h = ""
    · simp [Variants.named, absent] at place
    · obtain ⟨rfl, rfl⟩ : name = h ∧ n = 8 := by simpa [Variants.named, absent] using place
      exact ⟨.high, rfl, rfl, fun _ => absent, if_pos (by simp [Variants.named, absent, Lvalue.toRvalue])⟩
  · obtain ⟨rfl, rfl⟩ : name = w ∧ n = 16 := by simpa using place
    exact ⟨.word, rfl, rfl, by simp [View.Exists], if_neg (reg8h_ne _ (.inl (by decide)))⟩
  · obtain ⟨rfl, rfl⟩ : name = d ∧ n = 32 := by simpa using place
    exact ⟨.double, rfl, rfl, by simp [View.Exists], if_neg (reg8h_ne _ (.inl (by decide)))⟩
  · obtain ⟨rfl, rfl⟩ : name = q ∧ n = 64 := by simpa using place
    exact ⟨.long, rfl, rfl, by simp [View.Exists], if_neg (reg8h_ne _ (.inl (by decide)))⟩

theorem Merges.dest {view : View} {v : Nat} {before after : Valuation}
    (merges : Merges view.lo (view.size + view.lo) (v * 2 ^ view.lo) l h w d q before after)
    (present : view.Exists l h w d q) : after (view.name l h w d q) none = v % 2 ^ view.size := by
  cases view with
  | low =>
    rw [View.name, merges.low (present (.inl rfl)), if_pos (by decide),
      show keepMask 0xff 8 View.low.lo (View.low.size + View.low.lo) = 0 by decide, merged_none (by decide)]
    simp [View.lo, View.size]
  | high =>
    rw [View.name, merges.high (present (.inr rfl)), if_pos (by decide),
      show keepMask 0xffff 16 View.high.lo (View.high.size + View.high.lo) >>> 8 = 0 by decide, merged_none (by decide)]
    simp [View.lo, View.size]
  | word =>
    rw [View.name, merges.word, if_pos (by decide),
      show keepMask 0xffff 16 View.word.lo (View.word.size + View.word.lo) = 0 by decide, merged_none (by decide)]
    simp [View.lo, View.size]
  | double =>
    rw [View.name, merges.double, if_pos (by decide),
      show keepMask 0xffffffff 32 View.double.lo (View.double.size + View.double.lo) = 0 by decide, merged_none (by decide)]
    simp [View.lo, View.size]
  | long =>
    rw [View.name, merges.long, if_pos (by decide), if_neg (by decide),
      show keepLongMask View.long.lo (View.long.size + View.long.lo) = 0 by decide, merged_none (by decide)]
    simp [View.lo, View.size]

theorem variants_does {view : View} {val : Rvalue} {x : Bits} (stands : val.denote ρ = some x) (positive : x.size ≠ 0)
    (width : x.size ≤ 64) (names : Fresh l h w d q) (present : view.Exists l h w d q) :
    Does ((Variants.named l h w d q).write view.lo (view.size + view.lo) val) ρ fun after =>
      Merges view.lo (view.size + view.lo) (x.value * 2 ^ view.lo) l h w d q ρ after ∧
      Keeps ["val", l, h, w, d, q] ρ after := by
  apply write_does stands positive width
  · cases view <;> decide
  · exact names
  · intro absent inside
    cases view with
    | low => exact absurd absent (present (.inl rfl))
    | high => exact absurd inside (by decide)
    | _ => decide

theorem writeReg_emits (reg : Amd64.Register) (positive : reg.width ≠ 0) (width : reg.width ≤ 64) :
    Emits (writeReg (.var reg.name none 0 reg.width) (.var "res" none 0 reg.width) reg.width) ρ
      (Assigned reg.name reg.width ρ) := by
  rw [writeReg]
  cases found : regVariants reg.name with
  | none =>
    apply emits_rreil
    · simp [pure, Except.pure, bind, Except.bind, positive]
    simp [Assigned]
    intro name member same
    exact absurd ((by decide : flags ⊆ temporaries) (same ▸ member)) (name_fresh reg)
  | some v =>
    have place := reg_mem_variants reg v found
    obtain ⟨family, listed, rfl⟩ : ∃ family ∈ registerFamilies, family.2 = v := by
      obtain ⟨family, first, same⟩ := Option.map_eq_some_iff.mp found
      exact ⟨family, List.mem_of_find?_eq_some first, same⟩
    obtain ⟨l, h, w, d, q, same, names⟩ := registerFamilies_fresh family listed
    rw [same] at place ⊢
    have stands : (Rvalue.var "res" none 0 reg.width).denote ρ = some (.ofNat reg.width (ρ "res" none)) := by simp
    obtain ⟨view, named, sized, present, upper⟩ := view_of_place names place
    simp only [upper, zero_add]
    rw [sized] at stands ⊢
    refine (variants_does stands (by rwa [sized] at positive) (by rwa [sized] at width) names present).emits
      fun after written => ⟨?_, names.flags_kept written.2⟩
    obtain ⟨merges, -⟩ := written
    rw [named, merges.dest present, Bits.value_ofNat, Nat.mod_mod]

end Registers

end Panopticon.Proofs.WriteRegister
