import Panopticon.Amd64.Disassembler

/-! How the operands of an amd64 instruction use the bytes after the opcode: a result depends
on the bytes read only, and the bytes an operand takes for granted are those it panics without. -/

namespace Panopticon.Amd64
open Panopticon.Library Panopticon.Library.Reader

theorem readUnsigned_local (count : Nat) : Local (readUnsigned count) := .bind (.take _ _) fun _ => .pure _

theorem readModrm_local (rex : Option Rex) : Local (readModrm rex) := by
  refine .bind (readUnsigned_local 1) fun byte => ?_
  cases rex with
  | none => exact .pure _
  | some rex => exact .pure _

theorem sibBase_local (mod base : UInt8) (rexPresent : Bool) (addrsz : Nat) :
    Local (sibBase mod base rexPresent addrsz) := by
  unfold sibBase
  split
  · split
    · exact .bind (readUnsigned_local 4) fun _ => .pure _
    · exact .pure _
    · exact .pure _
    · exact .fail _
  · split
    · exact .pure _
    · exact .fail _

theorem readSib_local (mod : UInt8) (seg : SegmentOverride) (rex : Option Rex) (addrsz : Nat) :
    Local (readSib mod seg rex addrsz) :=
  .bind (readUnsigned_local 1) fun _ => .bind (sibBase_local ..) fun _ => .bind (.ofExcept _) fun _ => .pure _

theorem fetchModrm_local (rex : Option Rex) : Local (Tail.fetchModrm rex) := by
  refine .bind .notes fun tail => ?_
  split
  · exact .pure _
  · exact .bind (readModrm_local rex) fun modrm => .bind (.note _) fun _ => .pure _

theorem fetchSib_local (mod : UInt8) (seg : SegmentOverride) (rex : Option Rex) (addrsz : Nat) :
    Local (Tail.fetchSib mod seg rex addrsz) := by
  refine .bind .notes fun tail => ?_
  split
  · exact .pure _
  · exact .bind (readSib_local mod seg rex addrsz) fun sib => .bind (.note _) fun _ => .pure _

namespace Context
variable (c : Context)

theorem disp8_local (w : Nat) : Local (disp8 w) := .bind (readUnsigned_local 1) fun _ => .pure _

theorem disp32_local (w : Nat) : Local (disp32 w) := .bind (readUnsigned_local 4) fun _ => .pure _

private theorem displaced_local (rm : UInt8) (failure : String) {disp : TailReader UInt64} (reads : Local disp) :
    Local (c.displaced rm failure disp) := by
  unfold displaced
  split
  · exact .bind reads fun _ => .pure _
  · exact .fail _

private theorem scaledBy_local (mod : UInt8) (failure : String) {disp : TailReader UInt64} (reads : Local disp)
    (width : Nat) : Local (c.scaledBy mod failure disp width) := by
  refine .bind (fetchSib_local mod c.seg c.rex c.addrsz) fun sib => ?_
  split
  · exact .bind reads fun _ => .pure _
  · exact .fail _

private theorem readEffectiveAddress_split (opsz : Nat) :
    ∃ rest, c.readEffectiveAddress opsz = Tail.fetchModrm c.rex >>= rest ∧ ∀ modrm, Local (rest modrm) := by
  refine ⟨_, rfl, fun modrm => ?_⟩
  split
  · exact fetchSib_local ..
  · exact .bind (disp32_local _) fun _ => .bind .position fun _ => .pure _
  · exact .ofExcept _
  · refine .bind (.mapError (fetchSib_local ..)) fun sib => ?_
    split
    · exact .bind (disp8_local _) fun _ => .pure _
    · exact .fail _
  · exact c.displaced_local _ _ (disp8_local _)
  · exact c.scaledBy_local _ _ (disp32_local _) _
  · exact c.displaced_local _ _ (disp32_local _)
  · exact .ofExcept _
  · exact .fail _

private theorem readEffectiveSimdAddress_split (simdsz : Nat) :
    ∃ rest, c.readEffectiveSimdAddress simdsz = Tail.fetchModrm c.rex >>= rest ∧ ∀ modrm, Local (rest modrm) := by
  refine ⟨_, rfl, fun modrm => ?_⟩
  split
  · exact fetchSib_local ..
  · exact .bind (disp32_local _) fun _ => .pure _
  · exact .ofExcept _
  · exact c.scaledBy_local _ _ (disp8_local _) _
  · exact c.displaced_local _ _ (disp8_local _)
  · exact c.scaledBy_local _ _ (disp32_local _) _
  · exact c.displaced_local _ _ (disp32_local _)
  · exact .ofExcept _
  · exact .fail _

theorem readEffectiveAddress_local (opsz : Nat) : Local (c.readEffectiveAddress opsz) := by
  obtain ⟨rest, split, reads⟩ := c.readEffectiveAddress_split opsz
  exact split ▸ .bind (fetchModrm_local c.rex) reads

theorem readEffectiveSimdAddress_local (simdsz : Nat) : Local (c.readEffectiveSimdAddress simdsz) := by
  obtain ⟨rest, split, reads⟩ := c.readEffectiveSimdAddress_split simdsz
  exact split ▸ .bind (fetchModrm_local c.rex) reads

theorem readForm_local (form : Form) : Local (c.readForm form) := by
  cases form with
  | given operand => exact .ofExcept _
  | immediate count value width => exact .bind (.unwrap (readUnsigned_local _)) fun _ => .pure _
  | far first second value width =>
    exact .bind (.unwrap (readUnsigned_local _)) fun _ => .bind (.unwrap (readUnsigned_local _)) fun _ => .pure _
  | selector decode => exact .bind (.unwrap (readUnsigned_local _)) fun _ => .ofExcept _
  | offset count width => exact .bind (.unwrap (readUnsigned_local _)) fun _ => .ofExcept _
  | field pick decode => exact .bind (.unwrap (fetchModrm_local _)) fun _ => .ofExcept _
  | address size => exact c.readEffectiveAddress_local size
  | effective size => exact .bind (c.readEffectiveAddress_local size) fun _ => .ofExcept _
  | effectiveSimd size width => exact .bind (c.readEffectiveSimdAddress_local size) fun _ => .ofExcept _

theorem readOperands_local (specs : List OperandSpec) : Local (c.readOperands specs) := by
  induction specs with
  | nil => exact .pure _
  | cons spec rest ih =>
    exact .bind (c.readForm_local (c.form spec)) fun op => .bind (.ofOutcome _) fun _ => .bind ih fun _ => .pure _

end Context

/-- The bytes after the opcode hold nothing of such an operand. -/
def OperandSpec.silent (spec : OperandSpec) : Bool :=
  match spec.method with
  | .none | .B | .H => true
  | .I => spec.type = .one
  | _ => false

def Form.reads : Form → Bool
  | .given _ => false
  | .immediate count _ _ | .far count _ _ _ | .offset count _ => 0 < count
  | .selector _ | .field _ _ | .address _ | .effective _ | .effectiveSimd _ _ => true

def Unread (here : Cursor Tail) : Prop := here.notes.modrm.isSome → 0 < here.position

def Moved {α : Type} (_ : α) (here : Cursor Tail) : Prop := 0 < here.position

theorem moves_bind {α β : Type} {pre : Cursor Tail → Prop} {x : TailReader α} {f : α → TailReader β}
    (first : Ensures pre Moved x) (second : ∀ a, Local (f a)) : Ensures pre Moved (x >>= f) := by
  refine first.bind fun a => ?_
  intro input here b next moved read
  exact Nat.lt_of_lt_of_le moved ((second a).advances read)

theorem readUnsigned_moves {pre : Cursor Tail → Prop} {count : Nat} (some : 0 < count) :
    Ensures pre Moved (readUnsigned count) := by
  refine moves_bind (.take ?_) fun _ => .pure _
  intro items here _
  exact Nat.add_pos_right _ some

theorem fetchModrm_moves (rex : Option Rex) : Ensures Unread Moved (Tail.fetchModrm rex) := by
  intro input here modrm next unread read
  obtain ⟨tail, middle, noted, read⟩ := bind_returns.mp read
  cases noted
  cases known : here.notes.modrm with
  | some found =>
    simp only [known] at read
    cases read
    exact unread (by simp [known])
  | none =>
    simp only [known] at read
    have moves : Ensures (fun _ => True) Moved (readModrm rex) :=
      moves_bind (readUnsigned_moves Nat.one_pos) fun _ => .pure _
    exact moves_bind moves (fun _ => .bind (.note _) fun _ => .pure _) input here modrm next trivial read

namespace Context
variable (c : Context)

private theorem readEffectiveAddress_moves (opsz : Nat) : Ensures Unread Moved (c.readEffectiveAddress opsz) := by
  obtain ⟨rest, split, reads⟩ := c.readEffectiveAddress_split opsz
  exact split ▸ moves_bind (fetchModrm_moves c.rex) reads

private theorem readEffectiveSimdAddress_moves (simdsz : Nat) : Ensures Unread Moved (c.readEffectiveSimdAddress simdsz) := by
  obtain ⟨rest, split, reads⟩ := c.readEffectiveSimdAddress_split simdsz
  exact split ▸ moves_bind (fetchModrm_moves c.rex) reads

private theorem readForm_moves (form : Form) (reads : form.reads = true) : Ensures Unread Moved (c.readForm form) := by
  cases form with
  | given operand => cases reads
  | immediate count value width =>
    exact moves_bind (.unwrap (readUnsigned_moves (of_decide_eq_true reads))) fun _ => .pure _
  | far first second value width =>
    refine moves_bind (.unwrap (readUnsigned_moves (of_decide_eq_true reads))) fun _ => ?_
    exact .bind (.unwrap (readUnsigned_local _)) fun _ => .pure _
  | selector decode => exact moves_bind (.unwrap (readUnsigned_moves Nat.one_pos)) fun _ => .ofExcept _
  | offset count width =>
    exact moves_bind (.unwrap (readUnsigned_moves (of_decide_eq_true reads))) fun _ => .ofExcept _
  | field pick decode => exact moves_bind (.unwrap (fetchModrm_moves _)) fun _ => .ofExcept _
  | address size => exact c.readEffectiveAddress_moves size
  | effective size => exact moves_bind (c.readEffectiveAddress_moves size) fun _ => .ofExcept _
  | effectiveSimd size width => exact moves_bind (c.readEffectiveSimdAddress_moves size) fun _ => .ofExcept _

private theorem form_reads (spec : OperandSpec) (loud : spec.silent = false) :
    (∃ error, c.form spec = .given (.error error)) ∨ (c.form spec).reads = true := by
  obtain ⟨method, type⟩ := spec
  unfold form
  dsimp only
  split
  all_goals first
    | exact .inr rfl
    | exact .inl ⟨_, rfl⟩
    | (split <;> first | exact .inr rfl | exact .inl ⟨_, rfl⟩)
    | cases loud

private theorem form_given (spec : OperandSpec) (silent : spec.silent = true) : ∃ operand, c.form spec = .given operand := by
  obtain ⟨method, type⟩ := spec
  cases method with
  | none => exact ⟨_, rfl⟩
  | B =>
    unfold form
    cases type <;> cases c.vvvv <;> exact ⟨_, rfl⟩
  | H =>
    unfold form
    cases type <;> cases c.vvvv <;> exact ⟨_, rfl⟩
  | I =>
    obtain rfl : type = .one := of_decide_eq_true silent
    exact ⟨_, rfl⟩
  | _ => cases silent

private theorem readOperand_moves (spec : OperandSpec) (loud : spec.silent = false) :
    Ensures Unread Moved (c.readOperand spec) := by
  unfold readOperand
  obtain ⟨error, given⟩ | reads := c.form_reads spec loud
  · rw [given]
    exact .fail error
  · exact c.readForm_moves _ reads

private theorem readOperand_stays {spec : OperandSpec} {input : List UInt8} {here next : Cursor Tail} {op : Operand}
    (silent : spec.silent = true) (read : c.readOperand spec input here = .returns (op, next)) : next = here := by
  obtain ⟨operand, given⟩ := c.form_given spec silent
  rw [readOperand, given] at read
  cases operand with
  | ok value =>
    cases read
    rfl
  | error => cases read

theorem readOperands_cons {spec : OperandSpec} {rest : List OperandSpec} {input : List UInt8} {here next : Cursor Tail}
    {operands : Operands} : c.readOperands (spec :: rest) input here = .returns (operands, next) ↔
    ∃ op middle rv rst wst others, c.readOperand spec input here = .returns (op, middle) ∧
      toRreil op = .returns (rv, rst, wst) ∧ c.readOperands rest input middle = .returns (others, next) ∧
      ⟨rv :: others.ops, rst ++ others.stmts, wst :: others.wstmts⟩ = operands := by
  constructor
  · intro read
    obtain ⟨op, middle, first, read⟩ := bind_returns.mp read
    obtain ⟨⟨rv, rst, wst⟩, between, value, read⟩ := bind_returns.mp read
    obtain ⟨_, made, value⟩ := Outcome.bind_eq_returns.mp value
    cases value
    obtain ⟨others, last, second, read⟩ := bind_returns.mp read
    cases read
    exact ⟨op, middle, rv, rst, wst, others, first, made, second, rfl⟩
  · intro holds
    obtain ⟨op, middle, rv, rst, wst, others, first, made, second, same⟩ := holds
    refine bind_returns.mpr ⟨op, middle, first, bind_returns.mpr ⟨(rv, rst, wst), middle, ?_, ?_⟩⟩
    · exact Outcome.bind_eq_returns.mpr ⟨_, made, rfl⟩
    · exact bind_returns.mpr ⟨others, next, second, by rw [same]; rfl⟩

theorem readOperands_moves {specs : List OperandSpec} (loud : ∃ spec ∈ specs, spec.silent = false) :
    Ensures Unread Moved (c.readOperands specs) := by
  induction specs with
  | nil => simp at loud
  | cons spec rest ih =>
    intro input here operands next unread read
    obtain ⟨op, middle, _, _, _, others, first, _, second, _⟩ := c.readOperands_cons.mp read
    cases silent : spec.silent with
    | false =>
      have moved := c.readOperand_moves spec silent input here op middle unread first
      exact Nat.lt_of_lt_of_le moved ((c.readOperands_local rest).advances second)
    | true =>
      have same := c.readOperand_stays silent first
      have later : ∃ spec ∈ rest, spec.silent = false := by simpa [silent] using loud
      exact ih later input middle others next (same ▸ unread) second

theorem readOperands_stays {specs : List OperandSpec} {input : List UInt8} {here next : Cursor Tail}
    {operands : Operands} (silent : ∀ spec ∈ specs, spec.silent = true)
    (read : c.readOperands specs input here = .returns (operands, next)) : next = here := by
  induction specs generalizing here operands with
  | nil =>
    cases read
    rfl
  | cons spec rest ih =>
    obtain ⟨op, middle, _, _, _, others, first, _, second, _⟩ := c.readOperands_cons.mp read
    have same := c.readOperand_stays (silent spec List.mem_cons_self) first
    exact (ih (fun spec member => silent spec (List.mem_cons_of_mem _ member)) second).trans same

end Context
end Panopticon.Amd64
