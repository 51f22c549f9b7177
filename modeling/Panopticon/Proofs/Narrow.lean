import Panopticon.Proofs.Aliasing
import Panopticon.Proofs.Arithmetic
import Panopticon.Proofs.Addressing

/-! Arithmetic of amd64 with a destination narrower than 64 bits. The result is computed in the
larger of the two operand sizes and written as it is: what it has above the destination goes into
the parts that overlap it. -/

namespace Panopticon.Proofs.Narrow
open Panopticon.Library WriteRegister Generated Aliasing Extension Arithmetic
open Amd64 (SegmentOverride Register Operand toRreil addressToRreil displayAddress displayIndirect)
open Amd64.Semantic (Variants writeReg registerFamilies signExtend extended)

/-- Not a name that operands are extended into. -/
def Foreign (name : String) : Prop := name.toList.getLast? ≠ some 't'

theorem Foreign.ne {name : String} (foreign : Foreign name) (base : String) : name ≠ base ++ "_ext" := by
  rintro rfl
  exact foreign (by simp)

theorem foreign_name (reg : Register) : Foreign reg.name := by
  cases reg <;> simp [Foreign, Register.name]

theorem foreign_bracket (front : String) : Foreign (front ++ "]") := by
  simp [Foreign]

private theorem foreign_address (seg : SegmentOverride) (base index : Register) (scale : Nat) (disp : UInt64 × Nat) :
    Foreign (displayAddress seg base index scale disp) :=
  foreign_bracket _

private theorem foreign_indirect (seg : SegmentOverride) (base index : Register) (scale : Nat) (disp : UInt64 × Nat) (width : Nat) :
    Foreign (displayIndirect seg base index scale disp width) := by
  unfold displayIndirect displayAddress
  rw [← String.append_assoc]
  exact foreign_bracket _

/-- What an operand is read into: a variable that no extension is kept in, or a constant. -/
def Readable : Rvalue → Prop
  | .var name _ offset _ => offset = 0 ∧ Foreign name
  | _ => True

private theorem indexed_readable {out : String} {base index : Register} {scale : Nat} {ret : Rvalue} {stmts : List Statement}
    (foreign : Foreign out) (code : Addressing.indexed out base index scale = .ok (ret, stmts)) : Readable ret := by
  simp only [Addressing.indexed] at code
  split at code
  · split at code
    · obtain ⟨_, _, result⟩ := Outcome.except_bind_eq_ok.mp code
      cases result
      exact ⟨rfl, foreign⟩
    · obtain ⟨_, _, result⟩ := Outcome.except_bind_eq_ok.mp code
      cases result
      exact ⟨rfl, foreign⟩
  · cases code
    split
    · exact ⟨rfl, foreign_name base⟩
    · trivial

private theorem displaced_readable {out : String} {disp : UInt64} {size : Nat} {start ret : Rvalue} {first stmts : List Statement}
    (foreign : Foreign out) (readable : Readable start)
    (code : Addressing.displaced out disp size start first = .ok (ret, stmts)) : Readable ret := by
  simp only [Addressing.displaced] at code
  split at code
  · cases code
    exact readable
  · split at code
    · cases code
      trivial
    · obtain ⟨_, _, result⟩ := Outcome.except_bind_eq_ok.mp code
      cases result
      exact ⟨rfl, foreign⟩

private theorem addressToRreil_readable {seg : SegmentOverride} {base index : Register} {scale : Nat} {disp : UInt64 × Nat}
    {ret : Rvalue} {stmts : List Statement} (code : addressToRreil seg base index scale disp = .ok (ret, stmts)) :
    Readable ret := by
  have foreign := foreign_address seg base index scale disp
  rw [Addressing.addressToRreil_eq] at code
  obtain ⟨⟨start, first⟩, indexed, displaced⟩ := Outcome.except_bind_eq_ok.mp code
  exact displaced_readable foreign (indexed_readable foreign indexed) displaced

private theorem toRreil_readable {op : Operand} {value : Rvalue} {reads writes : List Statement}
    (code : toRreil op = .returns (value, reads, writes)) : Readable value := by
  cases op with
  | register reg =>
    cases code
    exact ⟨rfl, foreign_name reg⟩
  | immediate v width =>
    cases code
    trivial
  | indirect seg base index scale disp width =>
    obtain ⟨⟨target, first⟩, _, rest⟩ := Outcome.bind_eq_returns.mp code
    dsimp only at rest
    split at rest
    · obtain ⟨_, _, rest⟩ := Outcome.bind_eq_returns.mp rest
      obtain ⟨_, _, result⟩ := Outcome.bind_eq_returns.mp rest
      cases result
      exact ⟨rfl, foreign_indirect seg base index scale disp width⟩
    · cases rest
  | address seg base index scale disp =>
    obtain ⟨⟨ret, stmts⟩, address, result⟩ := Outcome.bind_eq_returns.mp code
    cases result
    exact addressToRreil_readable (Outcome.ofExcept_eq_returns.mp address)
  | optional =>
    cases code
    trivial

/-- The part is known by a name that no generated code uses. -/
def reserved : Lvalue → Bool
  | .undefined => true
  | .var name subscript _ => subscript = none && name ∉ temporaries && name.toList.getLast? ≠ some 't'

theorem reserved_parts : ∀ family ∈ registerFamilies, ∀ part ∈ parts family.2, reserved part = true := by
  decide

/-- Nothing but the variables of the generated code has changed. -/
def Private (before after : Valuation) : Prop :=
  ∀ name, name ∉ "res" :: working → Foreign name → after name none = before name none

private theorem parts_same {before after : Valuation} (same : Private before after) {family : List String × Variants}
    (listed : family ∈ registerFamilies) : ∀ lv ∈ parts family.2, lv.toRvalue.denote after = lv.toRvalue.denote before := by
  intro lv member
  have known := reserved_parts family listed lv member
  cases lv with
  | undefined => rfl
  | var name subscript size =>
    obtain ⟨⟨rfl, fresh⟩, foreign⟩ : (subscript = none ∧ name ∉ temporaries) ∧ Foreign name := by
      simpa [reserved, Foreign] using known
    have used : "res" :: working ⊆ temporaries := by decide
    have outside : name ∉ "res" :: working := fun inside => fresh (used inside)
    simp only [Lvalue.toRvalue, Rvalue.denote, same name outside foreign]

section Extension

variable {name : String} {n m : Nat} {b : Rvalue}

theorem Readable.aligned (readable : Readable b) (sized : b.size = some m) : Aligned b := by
  cases b with
  | undefined => cases sized
  | var own subscript offset size => exact readable.1
  | constant value size => trivial

theorem Readable.bits_eq (readable : Readable b) {before after : Valuation}
    (same : ∀ name, Foreign name → ∀ subscript, after name subscript = before name subscript) :
    b.bits after = b.bits before := by
  cases b with
  | var own subscript offset size => simp only [Rvalue.bits, Rvalue.denote, same own readable.2]
  | _ => rfl

/-- The operands of `n` and `m` bits extended. The value of the first one, and that the second one is not lost, is of
interest only where the first one is shorter. -/
theorem extension_run (readable : Readable b) (sized : b.size = some m) (positive : n ≠ 0) (fresh : name ∉ temporaries) :
    ∃ x y ext, signExtend (.var name none 0 n) b = .returns (.var x none 0 (max n m), y, max n m, ext) ∧
      y.size = some (max n m) ∧ x ∉ temporaries ∧ ∀ ρ, ∃ middle, run ext ρ = some middle ∧
        (∀ own, Foreign own → ∀ subscript, middle own subscript = ρ own subscript) ∧
        (n < m → middle x none % 2 ^ m = (widen true m ((Rvalue.var name none 0 n).bits ρ)).value ∧
          y.bits middle = b.bits ρ) := by
  let a : Rvalue := .var name none 0 n
  have code : signExtend a b = _ := extend_returns (a := a) rfl (readable.aligned sized) rfl sized positive
  have assigned : ∀ base s r, ∀ ρ : Valuation, ∀ own, Foreign own → ∀ subscript,
      ρ.assign (.var (base ++ "_ext") none s) r own subscript = ρ own subscript := by
    intro base s r ρ own foreign subscript
    have apart : own ≠ base ++ "_ext" := foreign.ne base
    simp [Valuation.assign, apart]
  rcases Nat.lt_trichotomy n m with longer | same | shorter
  · have largest : max n m = m := by omega
    rw [largest, extended_of_size sized, widening_of_size sized, List.append_nil] at code
    have form : extended a m = .var (name ++ "_ext") none 0 m := by simp [a, extended, Nat.ne_of_lt longer]
    have unused : name ++ "_ext" ∉ temporaries := by
      intro member
      have last : ∀ own ∈ temporaries, own.toList.getLast? ≠ some 't' := by decide
      exact last _ member (by simp)
    rw [largest]
    refine ⟨name ++ "_ext", b, _, form ▸ code, sized, unused, fun ρ => ?_⟩
    refine ⟨_, run_widening a rfl (Nat.ne_of_lt longer) ρ, assigned name m _ ρ, fun _ => ⟨?_, ?_⟩⟩
    · have small := (widen true m (a.bits ρ)).small
      rw [size_widen] at small
      simp [Valuation.assign, Nat.mod_eq_of_lt small, a]
    · exact readable.bits_eq (assigned name m _ ρ)
  · subst same
    rw [Nat.max_self, extended_of_size sized, widening_of_size sized, extended_of_size (x := a) rfl,
      widening_of_size (x := a) rfl] at code
    rw [Nat.max_self]
    exact ⟨name, b, [], code, sized, fresh, fun ρ => ⟨ρ, rfl, fun _ _ _ => rfl, fun absurd => (Nat.lt_irrefl _ absurd).elim⟩⟩
  · have largest : max n m = n := by omega
    rw [largest, extended_of_size (x := a) rfl, widening_of_size (x := a) rfl, List.nil_append] at code
    rw [largest]
    refine ⟨name, extended b n, _, code, size_extended (readable.aligned sized), fresh, fun ρ => ?_⟩
    have skipped : ¬n < m := Nat.lt_asymm shorter
    cases b with
    | undefined => cases sized
    | constant value size => exact ⟨ρ, rfl, fun _ _ _ => rfl, fun longer => absurd longer skipped⟩
    | var own subscript offset size =>
      obtain rfl : size = m := Option.some.inj sized
      have start : offset = 0 := readable.1
      subst start
      exact ⟨_, run_widening a rfl (Nat.ne_of_lt shorter) ρ, assigned own n _ ρ, fun longer => absurd longer skipped⟩

end Extension

def start (v : Variants) (part : Lvalue) : Nat := if part = v.reg8h then 8 else 0

/-- Outside of the part the register is as it was, or cleared after a write of 32 bits, and all registers are consistent. -/
structure Frames (v : Variants) (part : Lvalue) (n : Nat) (before after : Valuation) : Prop where
  consistent : ∀ other ∈ registerFamilies, Consistent other.2 after
  kept : ∀ i < 64, ¬(start v part ≤ i ∧ i < start v part + n) →
    (long v after).testBit i = (decide (n ≠ 32) && (long v before).testBit i)

/-- What the result in `m` bits has above the `n` bits of the part is set in the register already. -/
def Fits (opcode : Opcode) (v : Variants) (part : Lvalue) (n m : Nat) (b : Rvalue) (ρ : Valuation) : Prop :=
  let result := opcode.result m (widen true m (part.toRvalue.bits ρ)).value (b.bits ρ).value (ρ "CF" none % 2)
  ∀ i, n ≤ i → start v part + i < 64 → result.testBit i = true →
    n ≠ 32 ∧ (long v ρ).testBit (start v part + i) = true

private theorem absorbed_iff {view : View} {v old : Nat} : Absorbed view (v * 2 ^ view.lo) old ↔
    ∀ i, view.size ≤ i → view.lo + i < 64 → v.testBit i = true → view.size ≠ 32 ∧ old.testBit (view.lo + i) = true := by
  have half : view ≠ .double ↔ view.size ≠ 32 := by cases view <;> simp [View.size]
  rw [← half]
  constructor
  · intro absorbed i above inside set
    have taken := absorbed (view.lo + i) inside (by rw [Nat.testBit_mul_two_pow]; simpa using set)
    have outside : covers view (view.lo + i) ≠ true := by
      simp only [covers, ne_eq, Bool.and_eq_true, decide_eq_true_eq]
      omega
    exact taken.resolve_left outside
  · intro fits i inside set
    rw [Nat.testBit_mul_two_pow, Bool.and_eq_true, decide_eq_true_eq] at set
    rcases Nat.lt_or_ge (i - view.lo) view.size with below | above
    · left
      simp only [covers, Bool.and_eq_true, decide_eq_true_eq]
      omega
    · right
      have whole : view.lo + (i - view.lo) = i := by omega
      have taken := fits (i - view.lo) above (by omega) set.2
      rwa [whole] at taken

theorem Private.same {family : List String × Variants} (listed : family ∈ registerFamilies) {l h w d q : String}
    (form : family.2 = .named l h w d q) {before after : Valuation} (same : Private before after) :
    ∀ name ∈ [l, h, w, d, q], after name none = before name none := by
  intro name member
  by_cases absent : name = ""
  · exact same name (by rw [absent]; decide) (by rw [absent]; simp [Foreign])
  · obtain ⟨s, part⟩ := named_parts member absent
    have known := reserved_parts family listed _ (form ▸ part)
    obtain ⟨fresh, foreign⟩ : name ∉ temporaries ∧ Foreign name := by simpa [reserved, Foreign] using known
    have used : "res" :: working ⊆ temporaries := by decide
    exact same name (fun inside => fresh (used inside)) foreign

/-- What the code leaves: the value it writes, or for a second operand that is longer the result itself. -/
theorem code_places (opcode : Opcode) {family : List String × Variants} (listed : family ∈ registerFamilies) {part : Lvalue}
    {n m : Nat} (member : part ∈ parts family.2) (sized : part.size = some n) {b : Rvalue} (readable : Readable b)
    (sizedB : b.size = some m) (width : m ≤ 64) :
    ∃ (view : View) (l h w d q : String) (stmts : List Statement), family.2 = .named l h w d q ∧ Fresh l h w d q ∧
      part = .var (view.name l h w d q) none view.size ∧ view.Exists l h w d q ∧
      opcode.code part.toRvalue b = .returns (stmts, .fallThru) ∧ ∀ ρ, Leads Statement.Steps stmts ρ fun after =>
        ∃ v < 2 ^ max n m, Places view (v * 2 ^ view.lo) l h w d q ρ after ∧
          (n < m → v = opcode.result m (widen true m (part.toRvalue.bits ρ)).value (b.bits ρ).value (ρ "CF" none % 2)) ∧
          ∀ other ∈ registerFamilies, other.2 ≠ family.2 → ∀ lv ∈ parts other.2,
            lv.toRvalue.denote after = lv.toRvalue.denote ρ := by
  obtain ⟨positive, inside⟩ := part_width listed member sized
  obtain ⟨view, l, h, w, d, q, form, names, place, present, emits⟩ := writeReg_places listed member sized
  subst place
  obtain rfl : n = view.size := (Option.some.inj sized).symm
  let s := max view.size m
  have byte : 8 ≤ s := by
    have : 8 ≤ view.size := by cases view <;> decide
    omega
  have fits : s ≤ 64 := by omega
  have fresh : view.name l h w d q ∉ temporaries := names.fresh _ (by cases view <;> simp [View.name])
  obtain ⟨x, y, ext, extension, sizedY, unused, extends_⟩ := extension_run readable sizedB positive fresh
  have written : Gives (writeReg (.var (view.name l h w d q) none 0 view.size) (.var "res" none 0 s) s) fun middle after =>
      Places view (middle "res" none % 2 ^ s * 2 ^ view.lo) l h w d q middle after ∧ Keeps ["val", l, h, w, d, q] middle after := by
    refine gives_of_emits fun ρ => ?_
    obtain ⟨stmts, after, code, final, places, _, kept⟩ := @emits ρ (.var "res" none 0 s) _ rfl (by
      change s ≠ 0
      omega) fits s
    refine ⟨stmts, after, code, final, ?_, kept⟩
    simpa using places
  obtain ⟨stmts, code, leads⟩ := opcode_writes extension byte sizedY written unused opcode
  refine ⟨view, l, h, w, d, q, ext ++ stmts, form, names, rfl, present, code, fun ρ => ?_⟩
  obtain ⟨middle, ran, untouched, longer⟩ := extends_ ρ
  refine ((leads_iff ran).mpr rfl : Leads Statement.Steps ext ρ (· = middle)).append fun current same => ?_
  rw [same]
  refine (leads middle).imp fun after written => ?_
  obtain ⟨ready, computed, places, kept⟩ := written
  have quiet : Private ρ ready := fun name outside foreign => by
    rw [computed.kept name outside, untouched name foreign]
  have small : opcode.result s (middle x none % 2 ^ s) (y.bits middle).value (middle "CF" none % 2) < 2 ^ s :=
    opcode.result_lt (Nat.mod_lt _ (by positivity)) ((y.bits middle).small.trans_eq (by rw [bits_size sizedY]))
  rw [computed.result, Nat.mod_eq_of_lt small] at places
  refine ⟨_, small, places.of_same (quiet.same listed form), fun wide => ?_, fun other listed' apart lv part => ?_⟩
  · obtain ⟨first, second⟩ := longer wide
    have largest : s = m := by omega
    rw [largest, first, second, untouched "CF" (by simp [Foreign])]
    rfl
  · rw [parts_untouched listed listed' apart form kept lv part, parts_same quiet listed' lv part]

theorem code_frames_iff (opcode : Opcode) {family : List String × Variants} (listed : family ∈ registerFamilies) {part : Lvalue}
    {n m : Nat} (member : part ∈ parts family.2) (sized : part.size = some n) {b : Rvalue} (readable : Readable b)
    (sizedB : b.size = some m) (width : m ≤ 64) {ρ : Valuation} (consistent : ∀ other ∈ registerFamilies, Consistent other.2 ρ) :
    (∃ stmts, opcode.code part.toRvalue b = .returns (stmts, .fallThru) ∧
      Leads Statement.Steps stmts ρ (Frames family.2 part n ρ)) ↔ (n < m → Fits opcode family.2 part n m b ρ) := by
  obtain ⟨view, l, h, w, d, q, stmts, form, names, place, present, code, leads⟩ :=
    code_places opcode listed member sized readable sizedB width
  subst place
  obtain rfl : n = view.size := (Option.some.inj sized).symm
  have begins : start family.2 (.var (view.name l h w d q) none view.size) = view.lo := by
    rw [form]
    exact start_eq names present
  have generated : ∀ post : Valuation → Prop, (∃ stmts', opcode.code (Lvalue.toRvalue (.var (view.name l h w d q) none view.size)) b =
      .returns (stmts', .fallThru) ∧ Leads Statement.Steps stmts' ρ post) ↔ Leads Statement.Steps stmts ρ post := by
    intro post
    simp [code]
  rw [generated]
  refine (leads ρ).iff_of fun after written => ?_
  obtain ⟨v, small, places, result, others⟩ := written
  have wide : ∀ state, ∀ i < 64, (long family.2 state).testBit i = (state q none).testBit i := by
    intro state i inside
    rw [form, testBit_long inside]
  have framed : Frames family.2 (.var (view.name l h w d q) none view.size) view.size ρ after ↔
      Framed view (ρ q none) (after q none) := by
    have half : decide (view ≠ .double) = decide (view.size ≠ 32) := by cases view <;> decide
    have outside : ∀ i, covers view i = false ↔ ¬(view.lo ≤ i ∧ i < view.lo + view.size) := by
      intro i
      rw [covers, ← Bool.not_eq_true, Bool.and_eq_true, decide_eq_true_eq, decide_eq_true_eq]
      omega
    constructor
    · intro frames i inside apart
      rw [← wide after i inside, ← wide ρ i inside, half]
      exact frames.kept i inside (by rw [begins]; exact (outside i).mp apart)
    · intro framed
      constructor
      · intro other listed'
        by_cases own : other.2 = family.2
        · have before := consistent other listed'
          rw [own, form] at before ⊢
          exact places.consistent (places.framed_iff.mp framed) before
        · exact (consistent other listed').of_untouched (others other listed' own)
      · intro i inside apart
        rw [wide after i inside, wide ρ i inside, ← half]
        exact framed i inside ((outside i).mpr (by rwa [begins] at apart))
  rw [framed, places.framed_iff]
  rcases Nat.lt_or_ge view.size m with longer | shorter
  · obtain rfl := result longer
    rw [absorbed_iff, forall_prop_of_true longer, Fits, begins]
    refine forall_congr' fun i => forall_congr' fun _ => forall_congr' fun inside => ?_
    rw [wide ρ _ inside]
  · rw [Nat.max_eq_left shorter] at small
    simp [absorbed_of_lt small, Nat.not_lt.mpr shorter]

/-- An operation with a narrow destination touches only that, unless the second operand is longer and the result has bits
above the destination that are not set there. -/
theorem opcode_frames_iff (opcode : Opcode) {family : List String × Variants} (listed : family ∈ registerFamilies) {part : Lvalue}
    {n m : Nat} (member : part ∈ parts family.2) (sized : part.size = some n) {op : Operand} {b : Rvalue}
    {reads writes : List Statement} (decoded : toRreil op = .returns (b, reads, writes)) (sizedB : b.size = some m)
    (width : m ∈ [8, 16, 32, 64]) {ρ : Valuation} (consistent : ∀ other ∈ registerFamilies, Consistent other.2 ρ) :
    (∃ stmts, opcode.code part.toRvalue b = .returns (stmts, .fallThru) ∧
      Leads Statement.Steps stmts ρ (Frames family.2 part n ρ)) ↔ (n < m → Fits opcode family.2 part n m b ρ) := by
  have inside : m ≤ 64 := by
    simp only [List.mem_cons, List.not_mem_nil, or_false] at width
    omega
  exact code_frames_iff opcode listed member sized (toRreil_readable decoded) sizedB inside consistent

theorem consistent_zero : ∀ other ∈ registerFamilies, Consistent other.2 fun _ _ => 0 := by
  intro other listed
  obtain ⟨l, h, w, d, q, form, _⟩ := registerFamilies_fresh other listed
  rw [form]
  exact consistent_iff.mpr (by simp)

def accumulator : List String × Variants := (["AL", "AH", "AX", "EAX", "RAX"], .named "AL" "AH" "AX" "EAX" "RAX")

/-- All the bits of RAX but the lowest are set, and those of no other register. -/
def almostOnes : Valuation := fun name _ =>
  if name = "AL" then 0xfe else if name = "AH" then 0xff else if name = "AX" then 0xfffe else if name = "EAX" then 0xfffffffe
  else if name = "RAX" then 0xfffffffffffffffe else 0

private theorem parts_injective : Function.Injective parts := by
  intro v w same
  cases v
  cases w
  simpa [parts] using same

private theorem consistent_almostOnes : ∀ other ∈ registerFamilies, Consistent other.2 almostOnes := by
  intro other listed
  let content (ρ : Valuation) (lv : Lvalue) : Option (Nat × Nat) := (lv.toRvalue.denote ρ).map fun bits => (bits.size, bits.value)
  have all : ∀ other ∈ registerFamilies, parts other.2 = parts accumulator.2 ∨
      ∀ lv ∈ parts other.2, content almostOnes lv = content (fun _ _ => 0) lv := by decide
  rcases all other listed with same | untouched
  · rw [parts_injective same]
    refine consistent_iff.mpr ⟨fun _ => ?_, fun _ => ?_, ?_, ?_⟩ <;> decide
  · refine (consistent_zero other listed).of_untouched fun lv member => ?_
    refine Option.map_injective (fun first last same => ?_) (untouched lv member)
    cases first
    cases last
    simpa using same

/-- A byte and an immediate of one byte, which is read with the operand size of the instruction. What the sum has above
the byte is set in the register. -/
theorem opcode_frames_iff_immediate :
    ∃ stmts, Opcode.add.code (Lvalue.var "AL" none 8).toRvalue (.constant 1 32) = .returns (stmts, .fallThru) ∧
      Leads Statement.Steps stmts almostOnes (Frames accumulator.2 (.var "AL" none 8) 8 almostOnes) := by
  apply (@opcode_frames_iff .add accumulator (by decide) (.var "AL" none 8) 8 32 (by decide) rfl (.immediate 1 32) _ _ _ rfl rfl
    (by decide) _ consistent_almostOnes).mpr
  intro _ i above inside set
  have lowest : start accumulator.2 (.var "AL" none 8) = 0 := by decide
  rw [lowest, zero_add] at inside ⊢
  have all : ∀ i < 64, 8 ≤ i → (long accumulator.2 almostOnes).testBit i = true := by decide
  exact ⟨by decide, all i inside above⟩

/-- A borrow out of the byte runs on through the whole register. -/
theorem not_opcode_frames : ¬∀ (opcode : Opcode), ∀ family ∈ registerFamilies, ∀ part ∈ parts family.2, ∀ n ∈ [8, 16, 32],
    part.size = some n → ∀ op b reads writes, toRreil op = .returns (b, reads, writes) → ∀ m ∈ [8, 16, 32, 64],
    b.size = some m → ∀ ρ, (∀ other ∈ registerFamilies, Consistent other.2 ρ) →
    ∃ stmts, opcode.code part.toRvalue b = .returns (stmts, .fallThru) ∧
      Leads Statement.Steps stmts ρ (Frames family.2 part n ρ) := by
  intro claim
  have listed : (["AL", "AH", "AX", "EAX", "RAX"], Variants.named "AL" "AH" "AX" "EAX" "RAX") ∈ registerFamilies := by decide
  have runs := claim .sub _ listed (.var "AL" none 8) (by decide) 8 (by decide) rfl (.immediate 1 32) _ _ _ rfl 32 (by decide) rfl
    (fun _ _ => 0) consistent_zero
  have exactly := @code_frames_iff .sub _ listed (.var "AL" none 8) 8 32 (by decide) rfl (.constant 1 32) trivial rfl (by decide) _
    consistent_zero
  have set := (exactly.mp runs (by decide) 8 (by decide) (by decide) (by decide)).2
  exact absurd set (by decide)

end Panopticon.Proofs.Narrow
