import Panopticon.Proofs.Decoding
import Panopticon.Proofs.Translation

/-! What the amd64 decoder hands to the semantic functions: an operand that is assigned to is a
register or memory of a known size, so that no function of the tables panics. -/

namespace Panopticon.Amd64
open Panopticon.Library Panopticon.Library.Reader Panopticon.Proofs.Translation

/-- What an operand can be assigned to: a register, or memory of a size that can be stored. -/
def Operand.Stored : Operand → Prop
  | .register reg => reg ≠ .none
  | .indirect _ _ _ _ _ width => width ∈ [8, 16, 32, 64, 128, 256]
  | _ => False

def Operand.Located : Operand → Prop
  | .register reg => reg ≠ .none
  | .address .. => True
  | _ => False

/-- Memory operands have one of the sizes that can be loaded and stored. -/
def Operand.Sized : Operand → Prop
  | .indirect _ _ _ _ _ width => width ∈ [8, 16, 32, 64, 128, 256]
  | _ => True

theorem Operand.Stored.sized {op : Operand} (stored : op.Stored) : op.Sized := by
  cases op with
  | indirect => exact stored
  | _ => trivial

theorem Operand.Located.sized {op : Operand} (located : op.Located) : op.Sized := by
  cases op with
  | indirect => exact located.elim
  | _ => trivial

def Decodes (p : Operand → Prop) (x : Except String Operand) : Prop := ∀ op, x = .ok op → p op

theorem toRreil_settles {op : Operand} (sized : op.Sized) : (toRreil op).Settles := by
  cases op with
  | register => trivial
  | immediate => trivial
  | indirect seg base index scale disp width =>
    have sized : width ∈ [8, 16, 32, 64, 128, 256] := sized
    simp only [toRreil, Outcome.settles_bind, if_pos sized]
    simp
  | address => simp [toRreil, Outcome.settles_bind]
  | optional => trivial

/-- A SIB byte noted before stands for an address. -/
def Noted (here : Cursor Tail) : Prop := ∀ sib, here.notes.sib = some sib → sib.Located

def Kept {α : Type} (_ : α) (here : Cursor Tail) : Prop := Noted here

def Decoded (p : Operand → Prop) (op : Operand) (here : Cursor Tail) : Prop := p op ∧ Noted here

theorem bankRegister_decodes {p : Operand → Prop} {bank : List Register} (every : ∀ reg ∈ bank, p (.register reg))
    (reg : UInt8) (kind : String) (opsz : Nat) : Decodes p (bankRegister bank reg kind opsz) := by
  intro op decoded
  unfold bankRegister at decoded
  split at decoded <;> cases decoded
  next found => exact every _ (List.mem_of_getElem? found)

section Banks
variable {p : Operand → Prop} (every : ∀ reg ≠ .none, p (.register reg))
include every

theorem readRegister_decodes (reg : UInt8) (present : Bool) (opsz : Nat) : Decodes p (readRegister reg present opsz) := by
  apply bankRegister_decodes
  intro found member
  apply every
  rintro rfl
  revert member
  split
  · cases present <;> decide
  all_goals decide

theorem readSimdRegister_decodes (reg : UInt8) (present : Bool) (opsz : Nat) :
    Decodes p (readSimdRegister reg present opsz) := by
  apply bankRegister_decodes
  intro found member
  apply every
  rintro rfl
  revert member
  split <;> decide

theorem readCtrlRegister_decodes (reg : UInt8) (opsz : Nat) : Decodes p (readCtrlRegister reg opsz) := by
  apply bankRegister_decodes
  intro found member
  apply every
  rintro rfl
  revert member
  split <;> decide

theorem readDebugRegister_decodes (reg : UInt8) (opsz : Nat) : Decodes p (readDebugRegister reg opsz) := by
  apply bankRegister_decodes
  intro found member
  apply every
  rintro rfl
  revert member
  split <;> decide

end Banks

theorem readUnsigned_keeps (count : Nat) : Ensures Noted Kept (readUnsigned count) :=
  .bind (.take fun _ _ noted => noted) fun _ => .pure fun _ noted => noted

theorem ofExcept_decoded {p : Operand → Prop} {x : Except String Operand} (decodes : Decodes p x) :
    Ensures Noted (Decoded p) (Reader.ofExcept x : TailReader Operand) :=
  .ofExcept fun op _ decoded noted => ⟨decodes op decoded, noted⟩

private theorem notes_keeps : Ensures Noted Kept (Reader.notes : TailReader Tail) := .notes fun _ noted => noted

theorem fetchModrm_keeps (rex : Option Rex) : Ensures Noted Kept (Tail.fetchModrm rex) := by
  refine .bind notes_keeps fun tail => ?_
  split
  · exact .pure fun _ noted => noted
  · have modrm : Ensures Noted Kept (readModrm rex) := .bind (readUnsigned_keeps 1) fun _ => .pure fun _ noted => noted
    have noting (modrm : ModRM) :
        Ensures Noted Kept (Reader.note fun tail => { tail with modrm := some modrm } : TailReader Unit) :=
      .note fun _ noted => noted
    exact .bind modrm fun modrm => .bind (noting modrm) fun _ => .pure fun _ noted => noted

private theorem sibBase_keeps (mod base : UInt8) (rexPresent : Bool) (addrsz : Nat) :
    Ensures Noted Kept (sibBase mod base rexPresent addrsz) := by
  unfold sibBase
  split
  · split
    · exact .bind (readUnsigned_keeps 4) fun _ => .pure fun _ noted => noted
    · exact .pure fun _ noted => noted
    · exact .pure fun _ noted => noted
    · exact .fail _
  · split
    · exact .pure fun _ noted => noted
    · exact .fail _

private theorem readSib_decoded (mod : UInt8) (seg : SegmentOverride) (rex : Option Rex) (addrsz : Nat) :
    Ensures Noted (Decoded Operand.Located) (readSib mod seg rex addrsz) := by
  refine .bind (readUnsigned_keeps 1) fun _ => .bind (sibBase_keeps _ _ _ _) fun _ => ?_
  have index (x : Except String Register) : Ensures Noted Kept (Reader.ofExcept x : TailReader Register) :=
    .ofExcept fun _ _ _ noted => noted
  exact .bind (index _) fun _ => .pure fun _ noted => ⟨trivial, noted⟩

theorem fetchSib_decoded (mod : UInt8) (seg : SegmentOverride) (rex : Option Rex) (addrsz : Nat) :
    Ensures Noted (Decoded Operand.Located) (Tail.fetchSib mod seg rex addrsz) := by
  intro input here op next noted read
  obtain ⟨tail, middle, first, read⟩ := bind_returns.mp read
  cases first
  cases known : here.notes.sib with
  | some sib =>
    simp only [known] at read
    cases read
    exact ⟨noted op known, noted⟩
  | none =>
    simp only [known] at read
    obtain ⟨sib, middle, first, read⟩ := bind_returns.mp read
    obtain ⟨sized, _⟩ := readSib_decoded mod seg rex addrsz input here sib middle noted first
    cases read
    refine ⟨sized, fun found same => ?_⟩
    cases same
    exact sized

namespace Context
variable (c : Context)

private theorem displaced_decoded (rm : UInt8) (failure : String) {disp : TailReader UInt64} (keeps : Ensures Noted Kept disp) :
    Ensures Noted (Decoded Operand.Located) (c.displaced rm failure disp) := by
  unfold displaced
  split
  · exact .bind keeps fun _ => .pure fun _ noted => ⟨trivial, noted⟩
  · exact .fail _

theorem disp8_keeps (w : Nat) : Ensures Noted Kept (disp8 w) :=
  .bind (readUnsigned_keeps 1) fun _ => .pure fun _ noted => noted

theorem disp32_keeps (w : Nat) : Ensures Noted Kept (disp32 w) :=
  .bind (readUnsigned_keeps 4) fun _ => .pure fun _ noted => noted

theorem fetchSib_keeps (mod : UInt8) (seg : SegmentOverride) (rex : Option Rex) (addrsz : Nat) :
    Ensures Noted Kept (Tail.fetchSib mod seg rex addrsz) :=
  (fetchSib_decoded mod seg rex addrsz).imp (fun _ noted => noted) fun _ _ decoded => decoded.2

private theorem scaledBy_decoded (mod : UInt8) (failure : String) {disp : TailReader UInt64} (keeps : Ensures Noted Kept disp)
    (width : Nat) : Ensures Noted (Decoded Operand.Located) (c.scaledBy mod failure disp width) := by
  refine .bind (fetchSib_keeps _ _ _ _) fun sib => ?_
  split
  · exact .bind keeps fun _ => .pure fun _ noted => ⟨trivial, noted⟩
  · exact .fail _

private theorem readEffectiveAddress_decoded (opsz : Nat) : Ensures Noted (Decoded Operand.Located) (c.readEffectiveAddress opsz) := by
  refine .bind (fetchModrm_keeps c.rex) fun modrm => ?_
  split
  · exact fetchSib_decoded _ _ _ _
  · have here : Ensures Noted Kept (Reader.position : TailReader Nat) := .position fun _ noted => noted
    exact .bind (disp32_keeps _) fun _ => .bind here fun _ => .pure fun _ noted => ⟨trivial, noted⟩
  · exact ofExcept_decoded (readRegister_decodes (fun _ known => known) _ _ _)
  · refine .bind (.mapError (fetchSib_keeps _ _ _ _)) fun sib => ?_
    split
    · exact .bind (disp8_keeps _) fun _ => .pure fun _ noted => ⟨trivial, noted⟩
    · exact .fail _
  · exact c.displaced_decoded _ _ (disp8_keeps _)
  · exact c.scaledBy_decoded _ _ (disp32_keeps _) _
  · exact c.displaced_decoded _ _ (disp32_keeps _)
  · exact ofExcept_decoded (readRegister_decodes (fun _ known => known) _ _ _)
  · exact .fail _

private theorem readEffectiveSimdAddress_decoded (simdsz : Nat) :
    Ensures Noted (Decoded Operand.Located) (c.readEffectiveSimdAddress simdsz) := by
  refine .bind (fetchModrm_keeps c.rex) fun modrm => ?_
  split
  · exact fetchSib_decoded _ _ _ _
  · exact .bind (disp32_keeps _) fun _ => .pure fun _ noted => ⟨trivial, noted⟩
  · exact ofExcept_decoded (readSimdRegister_decodes (fun _ known => known) _ _ _)
  · exact c.scaledBy_decoded _ _ (disp8_keeps _) _
  · exact c.displaced_decoded _ _ (disp8_keeps _)
  · exact c.scaledBy_decoded _ _ (disp32_keeps _) _
  · exact c.displaced_decoded _ _ (disp32_keeps _)
  · exact ofExcept_decoded (readSimdRegister_decodes (fun _ known => known) _ _ _)
  · exact .fail _

end Context

/-- The operands a form can give, with the sizes it gives to memory operands. -/
def Form.Yields (p : Operand → Prop) : Form → Prop
  | .given operand => Decodes p operand
  | .selector decode | .field _ decode => ∀ reg, Decodes p (decode reg)
  | .offset _ width | .effective width | .effectiveSimd _ width => width ∈ [8, 16, 32, 64, 128, 256]
  | .immediate _ _ width | .far _ _ _ width => ∀ value, p (.immediate value width)
  | .address .. => ∀ op, op.Located → p op

theorem indirect_decodes {op : Operand} {seg : SegmentOverride} {width : Nat} (located : op.Located)
    (known : width ∈ [8, 16, 32, 64, 128, 256]) : Decodes Operand.Stored (indirect op seg width) := by
  intro result decoded
  cases op with
  | address =>
    cases decoded
    exact known
  | register =>
    cases decoded
    exact located
  | _ => exact located.elim

theorem Context.readForm_decoded (c : Context) {p : Operand → Prop} (stored : ∀ op, op.Stored → p op) {form : Form}
    (yields : form.Yields p) : Ensures Noted (Decoded p) (c.readForm form) := by
  cases form with
  | given operand => exact ofExcept_decoded yields
  | immediate count value width =>
    exact .bind (.unwrap (readUnsigned_keeps _)) fun _ => .pure fun _ noted => ⟨yields _, noted⟩
  | far first second value width =>
    refine .bind (.unwrap (readUnsigned_keeps _)) fun _ => .bind (.unwrap (readUnsigned_keeps _)) fun _ => ?_
    exact .pure fun _ noted => ⟨yields _, noted⟩
  | selector decode => exact .bind (.unwrap (readUnsigned_keeps _)) fun _ => ofExcept_decoded (yields _)
  | offset count width =>
    refine .bind (.unwrap (readUnsigned_keeps _)) fun _ => ofExcept_decoded fun op decoded => ?_
    cases decoded
    exact stored _ yields
  | field pick decode => exact .bind (.unwrap (fetchModrm_keeps _)) fun _ => ofExcept_decoded (yields _)
  | address size =>
    intro input here op next noted read
    obtain ⟨located, noted⟩ := c.readEffectiveAddress_decoded size input here op next noted read
    exact ⟨yields op located, noted⟩
  | effective size =>
    intro input here result next noted read
    obtain ⟨op, middle, first, read⟩ := bind_returns.mp read
    obtain ⟨located, noted⟩ := c.readEffectiveAddress_decoded size input here op middle noted first
    have decodes : Decodes p (indirect op c.seg size) :=
      fun op made => stored op (indirect_decodes located yields op made)
    exact ofExcept_decoded decodes input middle result next noted read
  | effectiveSimd size width =>
    intro input here result next noted read
    obtain ⟨op, middle, first, read⟩ := bind_returns.mp read
    obtain ⟨located, noted⟩ := c.readEffectiveSimdAddress_decoded size input here op middle noted first
    have decodes : Decodes p (indirect op c.seg width) :=
      fun op made => stored op (indirect_decodes located yields op made)
    exact ofExcept_decoded decodes input middle result next noted read

theorem sizedRegister_decodes {p : Operand → Prop} {long double word : Register} (opsz : Nat)
    (every : ∀ reg ∈ [long, double, word], p (.register reg)) : Decodes p (sizedRegister opsz long double word) := by
  intro op decoded
  unfold sizedRegister at decoded
  split at decoded <;> cases decoded
  all_goals exact every _ (by simp)

private theorem narrowRegister_decodes {p : Operand → Prop} {double word : Register} (opsz : Nat)
    (every : ∀ reg ∈ [double, word], p (.register reg)) : Decodes p (narrowRegister opsz double word) := by
  intro op decoded
  unfold narrowRegister at decoded
  split at decoded <;> cases decoded
  all_goals exact every _ (by simp)

theorem readSpecRegister_decodes (type : OperandType) (opsz : Nat) (rexB : Bool) :
    Decodes Operand.Stored (readSpecRegister type opsz rexB) := by
  have given {reg : Register} (known : reg ≠ .none) : Decodes Operand.Stored (.ok (.register reg)) := by
    intro op decoded
    cases decoded
    exact known
  have listed {regs : List Register} (known : Register.none ∉ regs) : ∀ reg ∈ regs, (Operand.register reg).Stored :=
    fun reg member same => known (same ▸ member)
  unfold readSpecRegister
  split
  all_goals first
    | exact given (by decide)
    | exact sizedRegister_decodes _ (listed (by decide))
    | exact narrowRegister_decodes _ (listed (by decide))
    | (cases rexB; exact given (by decide); exact given (by decide))
    | (cases rexB; exact sizedRegister_decodes _ (listed (by decide)); exact sizedRegister_decodes _ (listed (by decide)))
    | (intro op decoded; cases decoded)

def OperandSpec.storable (spec : OperandSpec) : Bool :=
  spec.method = .none || spec ∈ [⟨.E, .b⟩, ⟨.E, .v⟩, ⟨.G, .b⟩, ⟨.G, .v⟩, ⟨.G, .y⟩, ⟨.S, .w⟩, ⟨.O, .b⟩, ⟨.O, .v⟩, ⟨.R, .d⟩,
    ⟨.C, .d⟩, ⟨.D, .d⟩]

namespace Context
variable {c : Context}

/-- The sizes that prefixes and modes can ask for. -/
structure Valid (c : Context) : Prop where
  operand : c.opsz ∈ [16, 32, 64]
  simd : c.simdsz ∈ [128, 256]

theorem form_sized (valid : c.Valid) (spec : OperandSpec) : (c.form spec).Yields Operand.Sized := by
  have register (reg : UInt8) (present : Bool) (width : Nat) : Decodes Operand.Sized (readRegister reg present width) :=
    readRegister_decodes (fun _ _ => trivial) reg present width
  have simd (reg : UInt8) (present : Bool) (width : Nat) : Decodes Operand.Sized (readSimdRegister reg present width) :=
    readSimdRegister_decodes (fun _ _ => trivial) reg present width
  have opsz : c.opsz ∈ [8, 16, 32, 64, 128, 256] := by
    have := valid.operand
    simp at this ⊢
    omega
  have simdsz : c.simdsz ∈ [8, 16, 32, 64, 128, 256] := by
    have := valid.simd
    simp at this ⊢
    omega
  have narrow : min 32 c.opsz ∈ [8, 16, 32, 64, 128, 256] := by
    have := valid.operand
    simp at this ⊢
    omega
  have wide : max 32 c.opsz ∈ [8, 16, 32, 64, 128, 256] := by
    have := valid.operand
    simp at this ⊢
    omega
  have given {op : Operand} (sized : op.Sized) : Decodes Operand.Sized (.ok op) := by
    intro result decoded
    cases decoded
    exact sized
  have failed {message : String} : Decodes Operand.Sized (.error message) := by
    intro op decoded
    cases decoded
  have located (op : Operand) (located : op.Located) : op.Sized := located.sized
  obtain ⟨method, type⟩ := spec
  unfold form
  dsimp only
  split
  -- some forms depend on the operand size, the address size or the register of a VEX prefix
  all_goals try split
  all_goals dsimp only [Form.Yields, general, Context.simd, cantDecode]
  all_goals first
    | assumption
    | exact failed
    | exact register _ _ _
    | exact simd _ _ _
    | exact fun _ => trivial
    | exact fun reg => register _ _ _
    | exact fun reg => simd _ _ _
    | decide
    | exact fun reg => readCtrlRegister_decodes (fun _ _ => trivial) reg 32
    | exact fun reg => readDebugRegister_decodes (fun _ _ => trivial) reg 32
    | exact fun op decoded => (readSpecRegister_decodes _ _ _ op decoded).sized
    | (refine given ?_; trivial)

private theorem form_stores (valid : c.Valid) {spec : OperandSpec} (storable : spec.storable = true) :
    (c.form spec).Yields Operand.Stored := by
  have register (width : Nat) : (c.general width).Yields Operand.Stored :=
    fun reg => readRegister_decodes (fun _ known => known) reg c.rex.isSome width
  have opsz : c.opsz ∈ [8, 16, 32, 64, 128, 256] := by
    have := valid.operand
    simp at this ⊢
    omega
  simp only [OperandSpec.storable, Bool.or_eq_true, decide_eq_true_eq, List.mem_cons, List.not_mem_nil, or_false] at storable
  obtain none | rfl | rfl | rfl | rfl | rfl | rfl | rfl | rfl | rfl | rfl | rfl := storable
  · obtain ⟨method, type⟩ := spec
    obtain rfl : method = .none := none
    exact readSpecRegister_decodes _ _ _
  · show 8 ∈ [8, 16, 32, 64, 128, 256]
    decide
  · exact opsz
  · exact register 8
  · exact register c.opsz
  · exact register (max 32 c.opsz)
  · show 16 ∈ [8, 16, 32, 64, 128, 256]
    decide
  · dsimp only [form]
    split
    · show 8 ∈ [8, 16, 32, 64, 128, 256]
      decide
    · show 8 ∈ [8, 16, 32, 64, 128, 256]
      decide
    · show 8 ∈ [8, 16, 32, 64, 128, 256]
      decide
    · intro op decoded
      cases decoded
  · dsimp only [form]
    split
    · exact opsz
    · exact opsz
    · exact opsz
    · intro op decoded
      cases decoded
  · show 32 ∈ [8, 16, 32, 64, 128, 256]
    decide
  · exact fun reg => readCtrlRegister_decodes (fun _ known => known) reg 32
  · exact fun reg => readDebugRegister_decodes (fun _ known => known) reg 32

end Context

private theorem displacement_flat {ret : Rvalue} {stmts more : List Statement} {out : String} {w : Nat}
    {disp : UInt64 × Nat} {result : Rvalue × List Statement} (flat : Flat ret)
    (made : (if disp.1 = 0 then pure (ret, stmts)
      else if ret = .undefined then pure (.constant disp.1 disp.2, stmts)
      else rreil more >>= fun more => pure (.var out none 0 w, stmts ++ more)) = Except.ok result) : Flat result.1 := by
  split at made
  · cases made
    exact flat
  · split at made
    · cases made
      trivial
    · obtain ⟨_, _, made⟩ := Outcome.except_bind_eq_ok.mp made
      cases made
      rfl

private theorem addressToRreil_flat {seg : SegmentOverride} {base index : Register} {scale : Nat} {disp : UInt64 × Nat}
    {result : Rvalue × List Statement} (made : addressToRreil seg base index scale disp = .ok result) : Flat result.1 := by
  unfold addressToRreil at made
  dsimp only at made
  split at made
  · split at made
    · obtain ⟨_, _, made⟩ := Outcome.except_bind_eq_ok.mp made
      refine displacement_flat ?_ made
      rfl
    · obtain ⟨_, _, made⟩ := Outcome.except_bind_eq_ok.mp made
      refine displacement_flat ?_ made
      rfl
  · refine displacement_flat ?_ made
    split
    · rfl
    · trivial

private theorem toRreil_flat {op : Operand} {value : Rvalue × List Statement × List Statement}
    (made : toRreil op = .returns value) : Flat value.1 := by
  cases op with
  | register =>
    cases made
    rfl
  | immediate =>
    cases made
    trivial
  | indirect =>
    obtain ⟨_, _, made⟩ := Outcome.bind_eq_returns.mp made
    dsimp only at made
    split at made
    · obtain ⟨_, _, made⟩ := Outcome.bind_eq_returns.mp made
      obtain ⟨_, _, made⟩ := Outcome.bind_eq_returns.mp made
      cases made
      rfl
    · cases made
  | address =>
    obtain ⟨_, first, made⟩ := Outcome.bind_eq_returns.mp made
    cases made
    exact addressToRreil_flat (Outcome.ofExcept_eq_returns.mp first)
  | optional =>
    cases made
    trivial

theorem Register.width_of_ne_none {reg : Register} (known : reg ≠ .none) : 8 ≤ reg.width := by
  cases reg <;> first | contradiction | decide

private theorem toRreil_wide {op : Operand} {value : Rvalue × List Statement × List Statement} (stored : op.Stored)
    (made : toRreil op = .returns value) : Wide value.1 := by
  cases op with
  | register reg =>
    cases made
    exact ⟨rfl, Register.width_of_ne_none stored⟩
  | indirect _ _ _ _ _ width =>
    have large : 8 ≤ width := by
      have known : width ∈ [8, 16, 32, 64, 128, 256] := stored
      simp only [List.mem_cons, List.not_mem_nil, or_false] at known
      omega
    obtain ⟨_, _, made⟩ := Outcome.bind_eq_returns.mp made
    dsimp only at made
    split at made
    · obtain ⟨_, _, made⟩ := Outcome.bind_eq_returns.mp made
      obtain ⟨_, _, made⟩ := Outcome.bind_eq_returns.mp made
      cases made
      exact ⟨rfl, large⟩
    · cases made
  | immediate => exact stored.elim
  | address => exact stored.elim
  | optional => exact stored.elim

variable {c : Context}

/-- A function that computes or moves something is given an operand to store the result in. -/
def Opcode.assigns (opcode : Opcode) : Bool :=
  match opcode with
  | .binary _ _ f a _ => a.storable || (Semantic.binaries.lookup f).isNone
  | _ => true

def OpcodeTable.assigns (table : OpcodeTable) : Bool := table.entries.all fun entry => entry.2.assigns

section Selection
variable {table : OpcodeTable} {opcode : Opcode} {grp opc modrm i : Nat} {simd : SimdPrefix} {vexxop : Bool}
  {mode : Mode} {lead : Lead} {entry : Entry}

theorem OpcodeTable.index_assigns (assigns : table.assigns = true) (found : table.index i = .returns opcode) :
    opcode.assigns = true := by
  obtain rfl | member := table.index_mem found
  · rfl
  · exact List.all_eq_true.mp assigns _ member

private theorem lookupOpcode_assigns {b : Nat} (found : lookupOpcode mode lead b = .returns entry) : entry.opcode.assigns = true := by
  unfold lookupOpcode at found
  simp only [Outcome.pure_eq] at found
  split at found
  · split at found
    · cases found
      rfl
    · obtain ⟨_, indexed, made⟩ := Outcome.bind_eq_returns.mp found
      cases made
      exact OpcodeTable.index_assigns (by decide +kernel) indexed
  all_goals first
    | cases found
    | (obtain ⟨_, indexed, made⟩ := Outcome.bind_eq_returns.mp found
       cases made
       exact OpcodeTable.index_assigns (by decide) indexed)

private theorem x87Memory_assigns (known : x87Memory opc = .returns table) : table.assigns = true := by
  unfold x87Memory at known
  split at known <;> cases known <;> decide

private theorem x87Registers_assigns (known : x87Registers opc = .returns table) : table.assigns = true := by
  unfold x87Registers at known
  split at known <;> cases known <;> decide

private theorem selectOpcodeExt_assigns (chosen : selectOpcodeExt grp opc modrm simd mode vexxop = .returns opcode) :
    opcode.assigns = true := by
  unfold selectOpcodeExt at chosen
  dsimp only at chosen
  split at chosen
  all_goals first
    | exact OpcodeTable.index_assigns (by decide) chosen
    | (cases chosen; done)
    | (cases chosen; rfl)
    | (repeat' split at chosen) <;> first
      | (cases chosen; done)
      | (cases chosen; rfl)
      | exact OpcodeTable.index_assigns (by decide) chosen

theorem resolve_assigns {buf : List UInt8} {addr : UInt64} {selected : Selected}
    (entered : readEntry mode buf addr = .returns entry) (resolved : resolve mode buf addr entry = .returns selected) :
    selected.opcode.assigns = true := by
  obtain ⟨lead, b, plain, _, _, _, looked, _⟩ := readEntry_lookup entered
  unfold resolve at resolved
  dsimp only at resolved
  split at resolved
  · cases resolved
    exact lookupOpcode_assigns looked
  · cases resolved
  · split at resolved
    · split at resolved
      · obtain ⟨table, known, resolved⟩ := Outcome.bind_eq_returns.mp resolved
        obtain ⟨opcode, indexed, resolved⟩ := Outcome.bind_eq_returns.mp resolved
        cases resolved
        exact OpcodeTable.index_assigns (x87Memory_assigns known) indexed
      · obtain ⟨table, known, resolved⟩ := Outcome.bind_eq_returns.mp resolved
        obtain ⟨opcode, indexed, resolved⟩ := Outcome.bind_eq_returns.mp resolved
        cases resolved
        exact OpcodeTable.index_assigns (x87Registers_assigns known) indexed
    · cases resolved
  · split at resolved
    · obtain ⟨opcode, chosen, resolved⟩ := Outcome.bind_eq_returns.mp resolved
      cases resolved
      exact selectOpcodeExt_assigns chosen
    · cases resolved

end Selection

section Call
variable {specs : List OperandSpec} {input : List UInt8} {here next : Cursor Tail} {operands : Operands}

private theorem readOperands_flat (read : c.readOperands specs input here = .returns (operands, next)) :
    ∀ value ∈ operands.ops, Flat value := by
  induction specs generalizing here operands with
  | nil =>
    cases read
    intro value member
    cases member
  | cons spec rest ih =>
    obtain ⟨_, _, _, _, _, others, _, made, second, rfl⟩ := c.readOperands_cons.mp read
    intro value member
    obtain _ | ⟨_, member⟩ := member
    · exact toRreil_flat made
    · exact ih second value member

private theorem readOperands_wide (valid : c.Valid) {spec : OperandSpec} (storable : spec.storable = true) (noted : Noted here)
    (read : c.readOperands (spec :: specs) input here = .returns (operands, next)) :
    ∀ value ∈ operands.ops.head?, Wide value := by
  obtain ⟨op, middle, _, _, _, others, first, made, second, rfl⟩ := c.readOperands_cons.mp read
  intro value same
  cases same
  have decoded := c.readForm_decoded (fun _ stored => stored) (Context.form_stores valid storable)
  exact toRreil_wide (decoded input here op middle noted first).1 made

/-- Of the operands it was read with, no opcode of the tables asks more than the decoder gives. -/
theorem Opcode.call_settles {opcode : Opcode} (assigns : opcode.assigns = true) (valid : c.Valid) (noted : Noted here)
    (read : c.readOperands opcode.operands input here = .returns (operands, next)) :
    (opcode.call Semantic.semantics operands.ops).Settles := by
  have flat := readOperands_flat read
  unfold Opcode.call
  split
  · exact semantics_nonary _
  · exact semantics_unary _ _
  · trivial
  next mne opt f first second a b _ ops =>
    rw [ops] at flat
    apply semantics_binary ?_ (flat b (by simp))
    intro computes
    have storable : first.storable = true := by simpa [Opcode.assigns, computes] using assigns
    have wide := readOperands_wide valid storable noted read
    rw [ops] at wide
    exact wide a rfl
  all_goals trivial

end Call
end Panopticon.Amd64
