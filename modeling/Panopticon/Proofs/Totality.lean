import Panopticon.Proofs.Assignment

/-! When the amd64 decoder answers at all: it takes the payload of a VEX, EVEX or XOP prefix, the
immediates and the ModRM byte of a register operand for granted, and panics at a buffer that
ends before them. -/

namespace Panopticon.Amd64
open Panopticon.Library Panopticon.Library.Reader

theorem readUnsigned_settles (count : Nat) : Demands (fun _ => 0) (readUnsigned count) :=
  .bind (.take _ _) (.take _ _) fun _ => .pure _

private theorem readModrm_settles (rex : Option Rex) : Demands (fun _ => 0) (readModrm rex) :=
  .bind (readUnsigned_settles 1) (readUnsigned_local 1) fun _ => .pure _

private theorem sibBase_settles (mod base : UInt8) (rexPresent : Bool) (addrsz : Nat) :
    Demands (fun _ => 0) (sibBase mod base rexPresent addrsz) := by
  unfold sibBase
  split
  · split
    · exact .bind (readUnsigned_settles 4) (readUnsigned_local 4) fun _ => .pure _
    · exact .pure _
    · exact .pure _
    · exact .fail _
  · split
    · exact .pure _
    · exact .fail _

private theorem readSib_settles (mod : UInt8) (seg : SegmentOverride) (rex : Option Rex) (addrsz : Nat) :
    Demands (fun _ => 0) (readSib mod seg rex addrsz) := by
  refine .bind (readUnsigned_settles 1) (readUnsigned_local 1) fun _ => ?_
  refine .bind (sibBase_settles ..) (sibBase_local ..) fun _ => ?_
  exact .bind (.ofExcept _) (.ofExcept _) fun _ => .pure _

theorem fetchModrm_settles (rex : Option Rex) : Demands (fun _ => 0) (Tail.fetchModrm rex) := by
  refine .bind .notes .notes fun tail => ?_
  split
  · exact .pure _
  · exact .bind (readModrm_settles rex) (readModrm_local rex) fun _ => .bind (.note _) (.note _) fun _ => .pure _

theorem fetchSib_settles (mod : UInt8) (seg : SegmentOverride) (rex : Option Rex) (addrsz : Nat) :
    Demands (fun _ => 0) (Tail.fetchSib mod seg rex addrsz) := by
  refine .bind .notes .notes fun tail => ?_
  split
  · exact .pure _
  · exact .bind (readSib_settles ..) (readSib_local ..) fun _ => .bind (.note _) (.note _) fun _ => .pure _

namespace Context
variable (c : Context)

theorem disp8_settles (w : Nat) : Demands (fun _ => 0) (disp8 w) :=
  .bind (readUnsigned_settles 1) (readUnsigned_local 1) fun _ => .pure _

theorem disp32_settles (w : Nat) : Demands (fun _ => 0) (disp32 w) :=
  .bind (readUnsigned_settles 4) (readUnsigned_local 4) fun _ => .pure _

private theorem displaced_settles (rm : UInt8) (failure : String) {disp : TailReader UInt64} (settles : Demands (fun _ => 0) disp)
    (reads : Local disp) : Demands (fun _ => 0) (c.displaced rm failure disp) := by
  unfold displaced
  split
  · exact .bind settles reads fun _ => .pure _
  · exact .fail _

private theorem scaledBy_settles (mod : UInt8) (failure : String) {disp : TailReader UInt64} (settles : Demands (fun _ => 0) disp)
    (reads : Local disp) (width : Nat) : Demands (fun _ => 0) (c.scaledBy mod failure disp width) := by
  refine .bind (fetchSib_settles ..) (fetchSib_local ..) fun sib => ?_
  split
  · exact .bind settles reads fun _ => .pure _
  · exact .fail _

private theorem readEffectiveAddress_settles (opsz : Nat) : Demands (fun _ => 0) (c.readEffectiveAddress opsz) := by
  refine .bind (fetchModrm_settles c.rex) (fetchModrm_local c.rex) fun modrm => ?_
  split
  · exact fetchSib_settles ..
  · exact .bind (disp32_settles _) (disp32_local _) fun _ => .bind .position .position fun _ => .pure _
  · exact .ofExcept _
  · refine .bind (.mapError (fetchSib_settles ..)) (.mapError (fetchSib_local ..)) fun sib => ?_
    split
    · exact .bind (disp8_settles _) (disp8_local _) fun _ => .pure _
    · exact .fail _
  · exact c.displaced_settles _ _ (disp8_settles _) (disp8_local _)
  · exact c.scaledBy_settles _ _ (disp32_settles _) (disp32_local _) _
  · exact c.displaced_settles _ _ (disp32_settles _) (disp32_local _)
  · exact .ofExcept _
  · exact .fail _

private theorem readEffectiveSimdAddress_settles (simdsz : Nat) : Demands (fun _ => 0) (c.readEffectiveSimdAddress simdsz) := by
  refine .bind (fetchModrm_settles c.rex) (fetchModrm_local c.rex) fun modrm => ?_
  split
  · exact fetchSib_settles ..
  · exact .bind (disp32_settles _) (disp32_local _) fun _ => .pure _
  · exact .ofExcept _
  · exact c.scaledBy_settles _ _ (disp8_settles _) (disp8_local _) _
  · exact c.displaced_settles _ _ (disp8_settles _) (disp8_local _)
  · exact c.scaledBy_settles _ _ (disp32_settles _) (disp32_local _) _
  · exact c.displaced_settles _ _ (disp32_settles _) (disp32_local _)
  · exact .ofExcept _
  · exact .fail _

end Context

/-- The bytes of an operand that have to be in the buffer: immediates, and the ModRM byte of a
register operand unless an operand before it fetched that. -/
def Form.demand : Form → Tail → Nat
  | .immediate count _ _, _ | .offset count _, _ => count
  | .far first second _ _, _ => first + second
  | .selector _, _ => 1
  | .field _ _, tail => if tail.modrm.isSome then 0 else 1
  | .given _, _ | .address _, _ | .effective _, _ | .effectiveSimd _ _, _ => 0

private theorem unwrap_fetchModrm_settles (rex : Option Rex) :
    Demands (fun tail => if tail.modrm.isSome then 0 else 1) (Tail.fetchModrm rex).unwrap := by
  constructor
  intro input here inside
  cases known : here.notes.modrm with
  | some modrm => simp [Tail.fetchModrm, Reader.unwrap, Reader.notes, known, inside]
  | none =>
    by_cases enough : here.position + 1 ≤ input.length
    · have read : Reader.take "failed to fill whole buffer" 1 input here = .returns (_, _) :=
        take_returns.mpr ⟨enough, rfl, rfl⟩
      simp [Tail.fetchModrm, Reader.unwrap, Reader.notes, Reader.note, known, readModrm, readUnsigned, read, enough]
    · simp [Tail.fetchModrm, Reader.unwrap, Reader.notes, known, readModrm, readUnsigned, Reader.take, enough]

namespace Context
variable (c : Context)

private theorem readForm_demands (form : Form) : Demands form.demand (c.readForm form) := by
  cases form with
  | given operand => exact .ofExcept _
  | immediate count value width => exact .unwrap_take_bind fun _ => .pure _
  | far first second value width =>
    exact .unwrap_take_bind fun _ => .unwrap_take_bind fun _ => .pure _
  | selector decode => exact .unwrap_take_bind fun _ => .ofExcept _
  | offset count width => exact .unwrap_take_bind fun _ => .ofExcept _
  | field pick decode => 
    exact .bind (unwrap_fetchModrm_settles c.rex) (.unwrap (fetchModrm_local c.rex)) fun _ => .ofExcept _
  | address size => exact c.readEffectiveAddress_settles size
  | effective size => exact .bind (c.readEffectiveAddress_settles size) (c.readEffectiveAddress_local size) fun _ => .ofExcept _
  | effectiveSimd size width =>
    exact .bind (c.readEffectiveSimdAddress_settles size) (c.readEffectiveSimdAddress_local size) fun _ => .ofExcept _

end Context

namespace Context
variable {c : Context}

/-- Every operand that is reached finds the bytes it takes for granted. -/
def Supplied (c : Context) : List OperandSpec → List UInt8 → Cursor Tail → Prop
  | [], _, _ => True
  | spec :: rest, input, here =>
    here.position + (c.form spec).demand here.notes ≤ input.length ∧
      ∀ op next value, c.readOperand spec input here = .returns (op, next) → toRreil op = .returns value →
        c.Supplied rest input next

private theorem readOperand_demands (spec : OperandSpec) : Demands (c.form spec).demand (c.readOperand spec) :=
  c.readForm_demands (c.form spec)

theorem readOperand_decoded (valid : c.Valid) (spec : OperandSpec) :
    Ensures Noted (Decoded Operand.Sized) (c.readOperand spec) :=
  c.readForm_decoded (fun _ stored => stored.sized) (form_sized valid spec)

private theorem readOperands_cons_settles {spec : OperandSpec} {rest : List OperandSpec} {input : List UInt8}
    {here : Cursor Tail} (valid : c.Valid) (noted : Noted here) :
    (c.readOperands (spec :: rest) input here).Settles ↔ (c.readOperand spec input here).Settles ∧
      ∀ op next value, c.readOperand spec input here = .returns (op, next) → toRreil op = .returns value →
        (c.readOperands rest input next).Settles := by
  rw [readOperands, Reader.bind_apply, Outcome.settles_bind, and_congr_right_iff]
  intro _
  have after (op : Operand) (next : Cursor Tail) (read : c.readOperand spec input here = .returns (op, next)) :
      (toRreil op).Settles := toRreil_settles (readOperand_decoded valid spec input here op next noted read).1
  constructor
  · intro settled op next value read made
    have settled := settled (op, next) read
    simp only [Reader.bind_apply, Reader.ofOutcome, made, Outcome.returns_bind, Outcome.settles_bind] at settled
    exact settled.1
  · intro settled result read
    obtain ⟨op, next⟩ := result
    simp only [Reader.bind_apply, Reader.ofOutcome, Outcome.settles_bind]
    refine ⟨⟨after op next read, fun _ _ => trivial⟩, fun result made => ?_⟩
    obtain ⟨value, valued, same⟩ := Outcome.bind_eq_returns.mp made
    cases same
    exact ⟨settled op next value read valued, fun _ _ => trivial⟩

/-- The operands are read to a value or an error exactly when no byte they rely on is missing. -/
theorem readOperands_settles_iff (valid : c.Valid) (specs : List OperandSpec) {input : List UInt8} {here : Cursor Tail}
    (inside : here.position ≤ input.length) (noted : Noted here) :
    (c.readOperands specs input here).Settles ↔ c.Supplied specs input here := by
  induction specs generalizing here with
  | nil => exact iff_of_true trivial trivial
  | cons spec rest ih =>
    rw [readOperands_cons_settles valid noted, (readOperand_demands spec).settles inside, Supplied, and_congr_right_iff]
    intro _
    have onward (op : Operand) (next : Cursor Tail) (read : c.readOperand spec input here = .returns (op, next)) :
        (c.readOperands rest input next).Settles ↔ c.Supplied rest input next := by
      have moves := c.readForm_local (c.form spec)
      exact ih (moves.within read inside) (readOperand_decoded valid spec input here op next noted read).2
    constructor
    · intro settled op next value read made
      exact (onward op next read).mp (settled op next value read made)
    · intro supplied op next value read made
      exact (onward op next read).mpr (supplied op next value read made)

private theorem readOperands_length {specs : List OperandSpec} {input : List UInt8} {here next : Cursor Tail}
    {operands : Operands} (read : c.readOperands specs input here = .returns (operands, next)) :
    operands.ops.length = specs.length := by
  induction specs generalizing here operands with
  | nil =>
    cases read
    rfl
  | cons spec rest ih =>
    obtain ⟨_, _, _, _, _, others, _, _, second, rfl⟩ := c.readOperands_cons.mp read
    simp [ih second]

end Context

section Lead
variable {mode : Mode} {buf : List UInt8} {addr : UInt64} {pfx : Prefix} {lead next : Lead}

def payloadLength : UInt8 → Nat
  | 0xc5 => 2
  | 0xc4 => 3
  | 0x62 => 4
  | 0x8f => 3
  | _ => 0

theorem payloadPrefix_settles (byte : UInt8) : (payloadPrefix (byte &&& 0b11)).Settles := by
  have all : ∀ n < 4, (payloadPrefix (UInt8.ofNat n)).Settles := by decide
  have masked : (byte &&& 0b11).toNat < 4 := by
    rw [UInt8.toNat_and]
    exact Nat.lt_succ_of_le Nat.and_le_right
  simpa using all (byte &&& 0b11).toNat masked

theorem payloadEscape_settles (name : String) (bits : UInt8) : (payloadEscape name bits).Settles := by
  unfold payloadEscape
  split <;> trivial

private theorem vex2_settles : (vex2 buf pfx).Settles ↔ 2 ≤ buf.length := by
  rw [vex2, Outcome.settles_item_bind fun _ => iff_true_intro ?_]
  · simp only [and_true]
    omega
  · simp [Outcome.settles_bind, payloadPrefix_settles]

private theorem vex3_settles : (vex3 buf pfx).Settles ↔ 3 ≤ buf.length := by
  rw [vex3, Outcome.settles_item_bind fun _ => Outcome.settles_item_bind fun _ => iff_true_intro ?_]
  · simp only [and_true]
    omega
  · simp [Outcome.settles_bind, payloadPrefix_settles, payloadEscape_settles]

private theorem evex_settles : (evex buf pfx).Settles ↔ 4 ≤ buf.length := by
  rw [evex, Outcome.settles_item_bind fun _ => Outcome.settles_item_bind fun _ =>
    Outcome.settles_item_bind fun _ => iff_true_intro ?_]
  · simp only [and_true]
    omega
  · simp [Outcome.settles_bind, payloadPrefix_settles, payloadEscape_settles]

private theorem xop_settles : (xop buf pfx).Settles ↔ 3 ≤ buf.length := by
  rw [xop, Outcome.settles_item_bind fun _ => Outcome.settles_item_bind fun _ => iff_true_intro ?_]
  · simp only [and_true]
    omega
  · rw [Outcome.settles_bind]
    refine ⟨payloadPrefix_settles _, fun simd _ => ?_⟩
    dsimp only
    split <;> trivial

theorem payloadLength_eq_zero {byte : UInt8} (vex2 : byte ≠ 0xc5) (vex3 : byte ≠ 0xc4) (evex : byte ≠ 0x62)
    (xop : byte ≠ 0x8f) : payloadLength byte = 0 := by
  unfold payloadLength
  split <;> first | rfl | contradiction

theorem afterLegacy_settles {i : Nat} {byte : UInt8} : (afterLegacy mode buf i byte pfx).Settles ↔
    (i = 0 ∧ mode = .longMode → payloadLength byte ≤ buf.length) := by
  have free (vex2 : ¬(byte = 0xc5 ∧ i = 0 ∧ mode = .longMode)) (vex3 : ¬(byte = 0xc4 ∧ i = 0 ∧ mode = .longMode))
      (evex : ¬(byte = 0x62 ∧ i = 0 ∧ mode = .longMode)) (xop : ¬(byte = 0x8f ∧ i = 0 ∧ mode = .longMode)) :
      i = 0 ∧ mode = .longMode → payloadLength byte ≤ buf.length := by
    intro extended
    rw [payloadLength_eq_zero (fun same => vex2 ⟨same, extended⟩) (fun same => vex3 ⟨same, extended⟩)
      (fun same => evex ⟨same, extended⟩) (fun same => xop ⟨same, extended⟩)]
    exact Nat.zero_le _
  unfold afterLegacy
  split_ifs with vex2 vex3 evex xop rex
  · simp [vex2, vex2_settles, payloadLength]
  · simp [vex3, vex3_settles, payloadLength]
  · simp [evex, evex_settles, payloadLength]
  · simp [xop, xop_settles, payloadLength]
  · exact iff_of_true trivial (free vex2 vex3 evex xop)
  · exact iff_of_true trivial (free vex2 vex3 evex xop)

private theorem readPrefixes_settles_of_pos {left i : Nat} (later : 0 < i) : (readPrefixes mode buf left i pfx).Settles := by
  induction left generalizing i pfx with
  | zero => trivial
  | succ left ih =>
    rw [readPrefixes_succ]
    split
    · trivial
    · split
      · exact ih (Nat.succ_pos i)
      · rw [afterLegacy_settles]
        intro extended
        omega

/-- A payload that the first byte asks for is there. -/
def Paid (mode : Mode) (buf : List UInt8) : Prop :=
  mode = .longMode → ∀ first, buf[0]? = some first → payloadLength first ≤ buf.length

private theorem legacyPrefix_payload {i : Nat} {byte : UInt8} {other : Prefix} (legacy : legacyPrefix mode i byte pfx = some other) :
    payloadLength byte = 0 := by
  apply payloadLength_eq_zero
  all_goals
    rintro rfl
    cases legacy

private theorem readPrefixes_settles_iff (left : Nat) : (readPrefixes mode buf (left + 1) 0 pfx).Settles ↔ Paid mode buf := by
  rw [readPrefixes_succ]
  unfold Paid
  cases found : buf[0]? with
  | none => simp
  | some byte =>
    simp only [Option.some.injEq, forall_eq']
    cases legacy : legacyPrefix mode 0 byte pfx with
    | some other =>
      refine iff_of_true (readPrefixes_settles_of_pos Nat.one_pos) fun _ => ?_
      rw [legacyPrefix_payload legacy]
      exact Nat.zero_le _
    | none => simp [afterLegacy_settles]

private theorem readEscape_settles : (readEscape buf addr lead).Settles := by
  unfold readEscape
  split
  · split <;> trivial
  · trivial

private theorem stripPrefix_settles : (stripPrefix buf addr lead).Settles := by
  unfold stripPrefix
  dsimp only
  split
  · split
    · rw [Outcome.returns_bind]
      split <;> trivial
    · trivial
  · trivial

theorem OpcodeTable.index_settles {table : OpcodeTable} {i : Nat} (inside : i < table.size) :
    (table.index i).Settles := by
  rw [OpcodeTable.index, if_pos inside]
  trivial

private theorem lookupOpcode_settles {b : Nat} (byte : b < 256) (known : lead.pfx.opcodeEscape ≠ .escape0F0F) :
    (lookupOpcode mode lead b).Settles := by
  have indexed (lead : Lead) (table : OpcodeTable) (full : table.size = 256) :
      (table.index b >>= fun opcode => Outcome.returns (⟨lead, opcode⟩ : Entry)).Settles :=
    Outcome.settles_bind.mpr ⟨table.index_settles (full ▸ byte), fun _ _ => trivial⟩
  unfold lookupOpcode
  simp only [Outcome.pure_eq]
  split
  · split
    · trivial
    · exact indexed lead onebyteTable rfl
  all_goals first
    | trivial
    | exact indexed _ _ rfl

private theorem readEntry_settles_iff : (readEntry mode buf addr).Settles ↔ Paid mode buf := by
  rw [readEntry, Outcome.settles_bind, readPrefixes_settles_iff, and_iff_left_iff_imp]
  intro _ first _
  refine Outcome.settles_bind.mpr ⟨readEscape_settles, fun lead _ => ?_⟩
  split
  · trivial
  next known =>
    refine Outcome.settles_bind.mpr ⟨stripPrefix_settles, fun next strip => ?_⟩
    split
    next b _ =>
      obtain ⟨plain, rfl⟩ := stripPrefix_stripped strip
      exact lookupOpcode_settles b.toNat_lt (by rwa [Lead.stripped_escape])
    · trivial

/-- The operand sizes and SIMD sizes of the modes and their prefixes. -/
structure Prefix.Valid (pfx : Prefix) : Prop where
  operand : pfx.operandSize ∈ [16, 32, 64]
  simd : pfx.simdSize ∈ [128, 256]

private theorem initial_valid : (Prefix.initial mode).Valid := by
  cases mode <;> exact ⟨by decide, by decide⟩

private theorem legacyPrefix_valid {i : Nat} {byte : UInt8} {other : Prefix} (valid : pfx.Valid)
    (legacy : legacyPrefix mode i byte pfx = some other) : other.Valid := by
  obtain ⟨operand, simd⟩ := valid
  unfold legacyPrefix at legacy
  dsimp only at legacy
  split at legacy
  all_goals first
    | (cases legacy; split <;> exact ⟨operand, simd⟩)
    | (cases legacy; exact ⟨by cases mode <;> simp, simd⟩)
    | cases legacy

theorem simdSize_valid (valid : pfx.Valid) (wide : Prop) [Decidable wide] :
    (if wide then 256 else pfx.simdSize) ∈ [128, 256] := by
  split
  · decide
  · exact valid.simd

private theorem afterLegacy_valid {i : Nat} {byte : UInt8} (valid : pfx.Valid)
    (read : afterLegacy mode buf i byte pfx = .returns lead) : lead.pfx.Valid := by
  unfold afterLegacy at read
  split_ifs at read
  · simp only [vex2, Outcome.bind_eq_returns, Outcome.pure_eq, Outcome.returns.injEq] at read
    obtain ⟨_, _, _, _, rfl⟩ := read
    exact ⟨valid.operand, simdSize_valid valid _⟩
  · simp only [vex3, Outcome.bind_eq_returns, Outcome.pure_eq, Outcome.returns.injEq] at read
    obtain ⟨_, _, _, _, _, _, _, _, rfl⟩ := read
    exact ⟨valid.operand, simdSize_valid valid _⟩
  · simp only [evex, Outcome.bind_eq_returns, Outcome.pure_eq, Outcome.returns.injEq] at read
    obtain ⟨_, _, _, _, _, _, _, _, _, _, rfl⟩ := read
    exact ⟨valid.operand, simdSize_valid valid _⟩
  · simp only [xop, Outcome.bind_eq_returns, Outcome.pure_eq] at read
    obtain ⟨_, _, _, _, _, _, read⟩ := read
    split at read <;> cases read <;> exact ⟨valid.operand, valid.simd⟩
  · cases read
    refine ⟨?_, valid.simd⟩
    dsimp only [rexPrefix]
    split
    · decide
    · exact valid.operand
  · cases read
    exact valid

private theorem readPrefixes_valid {left i : Nat} (valid : pfx.Valid) (read : readPrefixes mode buf left i pfx = .returns lead) :
    lead.pfx.Valid := by
  induction left generalizing i pfx with
  | zero =>
    cases read
    exact valid
  | succ left ih =>
    rw [readPrefixes_succ] at read
    split at read
    · cases read
      exact valid
    · split at read
      next other legacy => exact ih (legacyPrefix_valid valid legacy) read
      · exact afterLegacy_valid valid read

private theorem readEscape_valid (valid : lead.pfx.Valid) (read : readEscape buf addr lead = .returns next) : next.pfx.Valid := by
  obtain ⟨operand, simd⟩ := valid
  unfold readEscape at read
  split at read
  · split at read <;> cases read <;> exact ⟨operand, simd⟩
  · cases read
    exact ⟨operand, simd⟩

private theorem lookupOpcode_valid {b : Nat} {entry : Entry} (valid : lead.pfx.Valid)
    (found : lookupOpcode mode lead b = .returns entry) : entry.lead.pfx.Valid := by
  obtain ⟨operand, simd⟩ := valid
  have wide : mode.bits ∈ [16, 32, 64] := by cases mode <;> decide
  unfold lookupOpcode at found
  simp only [Outcome.pure_eq] at found
  split at found
  · split at found
    · cases found
      exact ⟨operand, simd⟩
    · obtain ⟨_, _, made⟩ := Outcome.bind_eq_returns.mp found
      cases made
      exact ⟨operand, simd⟩
  all_goals first
    | (obtain ⟨_, _, made⟩ := Outcome.bind_eq_returns.mp found; cases made; exact ⟨operand, simd⟩)
    | (obtain ⟨_, _, made⟩ := Outcome.bind_eq_returns.mp found; cases made; exact ⟨wide, simd⟩)
    | cases found

private theorem readEntry_valid {entry : Entry} (read : readEntry mode buf addr = .returns entry) : entry.lead.pfx.Valid := by
  obtain ⟨lead, b, plain, leading, _, _, looked, _⟩ := readEntry_lookup read
  obtain ⟨first, prefixes, escape⟩ := Outcome.bind_eq_returns.mp leading
  have valid := readEscape_valid (readPrefixes_valid initial_valid prefixes) escape
  refine lookupOpcode_valid ?_ looked
  cases plain <;> exact ⟨valid.operand, valid.simd⟩

end Lead

section Selection
variable {mode : Mode} {buf : List UInt8} {addr : UInt64} {entry : Entry} {selected : Selected}

/-- Every x87 escape of the table is one of the eight bytes that have tables of their own. -/
theorem onebyteTable_escapes :
    onebyteTable.entries.all (fun entry => entry.2.mnemonic ≠ .escape || (0xd8 ≤ entry.1 && entry.1 ≤ 0xdf)) = true := by
  decide +kernel

def OpcodeTable.unescaped (table : OpcodeTable) : Bool := table.entries.all fun entry => entry.2.mnemonic ≠ .escape

theorem OpcodeTable.not_escape {table : OpcodeTable} {i : Nat} {opcode : Opcode} (unescaped : table.unescaped = true)
    (found : table.index i = .returns opcode) : opcode.mnemonic ≠ .escape := by
  obtain rfl | member := table.index_mem found
  · intro escape
    cases escape
  · simpa using List.all_eq_true.mp unescaped _ member

private theorem lookupOpcode_escape {lead : Lead} {b : Nat} (found : lookupOpcode mode lead b = .returns entry)
    (escape : entry.opcode.mnemonic = .escape) : 0xd8 ≤ b ∧ b ≤ 0xdf := by
  unfold lookupOpcode at found
  simp only [Outcome.pure_eq] at found
  split at found
  · split at found
    · cases found
      cases escape
    · obtain ⟨_, indexed, made⟩ := Outcome.bind_eq_returns.mp found
      cases made
      obtain none | member := OpcodeTable.index_mem indexed
      · rw [none] at escape
        cases escape
      · simpa [escape] using List.all_eq_true.mp onebyteTable_escapes _ member
  all_goals first
    | (obtain ⟨_, indexed, made⟩ := Outcome.bind_eq_returns.mp found
       cases made
       exact absurd escape (OpcodeTable.not_escape (by decide) indexed))
    | cases found

private theorem x87Memory_settles {esc : Nat} (low : 0xd8 ≤ esc) (high : esc ≤ 0xdf) :
    ∃ table, x87Memory esc = .returns table ∧ table.size = 8 := by
  interval_cases esc <;> exact ⟨_, rfl, rfl⟩

private theorem x87Registers_settles {esc : Nat} (low : 0xd8 ≤ esc) (high : esc ≤ 0xdf) :
    ∃ table, x87Registers esc = .returns table ∧ table.size = 64 := by
  interval_cases esc <;> exact ⟨_, rfl, rfl⟩

private theorem selectOpcodeExt_settles {grp opc modrm : Nat} {simd : SimdPrefix} {vexxop : Bool} :
    (selectOpcodeExt grp opc modrm simd mode vexxop).Settles := by
  have reg : (modrm &&& 0b00111000) >>> 3 < 8 := by
    have masked : modrm &&& 0b00111000 ≤ 0b00111000 := Nat.and_le_right
    rw [Nat.shiftRight_eq_div_pow]
    omega
  unfold selectOpcodeExt
  dsimp only
  generalize (modrm &&& 0b00111000) >>> 3 = r at reg ⊢
  split
  all_goals first
    | trivial
    | exact OpcodeTable.index_settles reg
    | (repeat' split) <;> first
      | trivial
      | exact OpcodeTable.index_settles reg
      | (interval_cases r <;> contradiction)
    | interval_cases r <;> first
      | trivial
      | exact OpcodeTable.index_settles (by decide)
      | (split <;> trivial)

private theorem resolve_settles (entered : readEntry mode buf addr = .returns entry) :
    (resolve mode buf addr entry).Settles := by
  obtain ⟨lead, b, plain, _, found, _, looked, _⟩ := readEntry_lookup entered
  have atLead := (lookupOpcode_lead looked).1
  rw [Lead.stripped_i] at atLead
  unfold resolve
  dsimp only
  split
  · trivial
  · trivial
  next escape =>
    obtain ⟨low, high⟩ := lookupOpcode_escape looked escape
    split
    next esc modrm first second =>
      rw [atLead, found] at first
      cases first
      split
      · obtain ⟨table, known, size⟩ := x87Memory_settles low high
        have reg : (modrm.toNat >>> 3) &&& 0b111 < table.size := by
          rw [size]
          exact Nat.lt_of_le_of_lt Nat.and_le_right (by decide)
        rw [known, Outcome.returns_bind]
        exact Outcome.settles_bind.mpr ⟨table.index_settles reg, fun _ _ => trivial⟩
      · obtain ⟨table, known, size⟩ := x87Registers_settles low high
        have reg : modrm.toNat - 0xc0 < table.size := by
          rw [size]
          have := modrm.toNat_lt
          omega
        rw [known, Outcome.returns_bind]
        exact Outcome.settles_bind.mpr ⟨table.index_settles reg, fun _ _ => trivial⟩
    · trivial
  · split
    next opc modrm _ _ =>
      exact Outcome.settles_bind.mpr ⟨selectOpcodeExt_settles, fun _ _ => trivial⟩
    · trivial

private theorem selected_inside (entered : readEntry mode buf addr = .returns entry)
    (resolved : resolve mode buf addr entry = .returns selected) : selected.i + 1 ≤ buf.length := by
  have inside := readEntry_inside entered
  obtain ⟨_, _, rfl⟩ | ⟨_, _, _, second, ⟨_, _, later⟩ | ⟨_, here, _⟩ | ⟨_, _, here, _⟩⟩ := resolve_cases resolved
  · exact inside
  · have := (List.getElem?_eq_some_iff.mp second).1
    omega
  · omega
  · omega

end Selection

section Read
variable {mode : Mode} {buf : List UInt8} {addr : UInt64} {c : Context} {selected : Selected}

private theorem applyOption_valid {opt : OpcodeOption} {size result : Nat} (known : size ∈ [16, 32, 64])
    (applied : applyOption mode opt size = .ok result) : result ∈ [16, 32, 64] := by
  unfold applyOption at applied
  split at applied
  all_goals
    first
    | (cases applied; exact known)
    | (split_ifs at applied <;> cases applied <;> first | exact known | decide)

/-- The opcode of a buffer, with what its operands are read under. -/
def Selects (mode : Mode) (buf : List UInt8) (addr : UInt64) (c : Context) (selected : Selected) : Prop :=
  ∃ entry operandSize name, readEntry mode buf addr = .returns entry ∧ resolve mode buf addr entry = .returns selected ∧
    applyOption mode selected.opcode.option entry.lead.pfx.operandSize = .ok operandSize ∧
    selected.opcode.mnemonic = .single name ∧ operandContext mode addr entry.lead selected.i operandSize = c

theorem Selects.valid (selects : Selects mode buf addr c selected) : c.Valid := by
  obtain ⟨entry, operandSize, name, entered, _, sized, _, rfl⟩ := selects
  have valid := readEntry_valid entered
  exact ⟨applyOption_valid valid.operand sized, valid.simd⟩

theorem Selects.assigns (selects : Selects mode buf addr c selected) : selected.opcode.assigns = true := by
  obtain ⟨entry, operandSize, name, entered, resolved, _⟩ := selects
  exact resolve_assigns entered resolved

theorem Selects.inside (selects : Selects mode buf addr c selected) : selected.i + 1 ≤ buf.length := by
  obtain ⟨entry, operandSize, name, entered, resolved, _⟩ := selects
  exact selected_inside entered resolved

/-- What a buffer has to hold for the decoder to answer. -/
structure Complete (mode : Mode) (buf : List UInt8) (addr : UInt64) : Prop where
  paid : Paid mode buf
  supplied : ∀ c selected, Selects mode buf addr c selected →
    c.Supplied selected.opcode.operands (buf.drop (selected.i + 1)) ⟨0, none, none⟩

private theorem operandFormat_settles {name : String} {count : Nat} (few : count ≤ 4) : (operandFormat name count).Settles := by
  interval_cases count <;> trivial

private theorem operands_length (opcode : Opcode) : opcode.operands.length ≤ 4 := by
  cases opcode <;> simp [Opcode.operands]

theorem readInstruction_settles_iff {name : String} (selects : Selects mode buf addr c selected) :
    (readInstruction Semantic.semantics c name selected buf addr).Settles ↔
      c.Supplied selected.opcode.operands (buf.drop (selected.i + 1)) ⟨0, none, none⟩ := by
  have noted : Noted ⟨0, none, none⟩ := by
    intro sib known
    cases known
  unfold readInstruction
  dsimp only
  rw [if_pos selects.inside, Outcome.settles_bind, Context.readOperands_settles_iff selects.valid _ (Nat.zero_le _) noted,
    and_iff_left_iff_imp]
  intro _ result read
  obtain ⟨operands, tail⟩ := result
  have format : (operandFormat name operands.ops.length).Settles := by
    apply operandFormat_settles
    rw [Context.readOperands_length read]
    exact operands_length selected.opcode
  apply Outcome.Settles.bind (Opcode.call_settles selects.assigns selects.valid noted read)
  intro _ _
  exact Outcome.Settles.bind format fun _ _ => trivial

private theorem read_settles_iff : (read Semantic.semantics mode buf addr).Settles ↔ Complete mode buf addr := by
  unfold read
  rw [Outcome.settles_bind, readEntry_settles_iff]
  constructor
  · intro holds
    obtain ⟨paid, rest⟩ := holds
    refine ⟨paid, ?_⟩
    rintro _ selected ⟨entry, operandSize, name, entered, resolved, sized, named, rfl⟩
    have rest := (Outcome.settles_bind.mp (rest entry entered)).2 selected resolved
    have rest := (Outcome.settles_bind.mp rest).2 operandSize (Outcome.ofExcept_eq_returns.mpr sized)
    simp only [named] at rest
    exact (readInstruction_settles_iff ⟨entry, operandSize, name, entered, resolved, sized, named, rfl⟩).mp rest
  · intro complete
    refine ⟨complete.paid, fun entry entered => Outcome.settles_bind.mpr ⟨resolve_settles entered, ?_⟩⟩
    intro selected resolved
    refine Outcome.settles_bind.mpr ⟨Outcome.settles_ofExcept _, fun operandSize sized => ?_⟩
    split
    next name named =>
      have selects : Selects mode buf addr (operandContext mode addr entry.lead selected.i operandSize) selected :=
        ⟨entry, operandSize, name, entered, resolved, Outcome.ofExcept_eq_returns.mp sized, named, rfl⟩
      exact (readInstruction_settles_iff selects).mpr (complete.supplied _ _ selects)
    · trivial

/-- The length of an instruction is the number of bytes its area covers in the buffer. -/
theorem read_length {semantic : Semantics} {len : UInt64} {mne : Mnemonic} {jumps : List (Rvalue × Guard)}
    (short : buf.length ≤ 15) (decoded : read semantic mode buf addr = .returns (len, mne, jumps)) :
    1 ≤ len.toNat ∧ len.toNat ≤ buf.length ∧ mne.area = ⟨addr, addr + len⟩ := by
  obtain ⟨entry, selected, operandSize, name, _, _, _, _, instruction⟩ := read_returns.mp decoded
  obtain ⟨inside, operands, tail, operandsRead, lenEq, area, _⟩ := readInstruction_returns instruction
  have within := (Context.readOperands_local _ _).within operandsRead (Nat.zero_le _)
  rw [List.length_drop] at within
  rw [lenEq, toNat_length short (by omega), ← lenEq]
  exact ⟨by omega, by omega, area⟩

end Read
end Panopticon.Amd64

namespace Panopticon.Proofs.Totality
open Panopticon.Library Panopticon.Amd64 Panopticon.Amd64.Semantic

theorem read_total_iff (mode : Mode) (buf : List UInt8) (addr : UInt64) (short : buf.length ≤ 15) :
    ((read semantics mode buf addr).Settles ∧ ∀ len mne jumps,
        read semantics mode buf addr = .returns (len, mne, jumps) →
        1 ≤ len.toNat ∧ len.toNat ≤ buf.length ∧ mne.area = ⟨addr, addr + len⟩) ↔
      Complete mode buf addr := by
  rw [read_settles_iff, and_iff_left_iff_imp]
  intro _ len mne jumps decoded
  exact read_length short decoded

/-- Of an addition to memory and a move of an immediate, the move that is cut short is incomplete. -/
theorem read_total_mov : Complete .longMode [0x01, 0x04, 0x24] 0 ∧ Complete .longMode [0xb8, 1, 2, 3, 4] 0 ∧
    ¬Complete .longMode [0xb8, 1, 2] 0 := by
  refine ⟨(read_total_iff .longMode [0x01, 0x04, 0x24] 0 (by decide)).mp ⟨by decide, fun _ _ _ => ?_⟩,
    (read_total_iff .longMode [0xb8, 1, 2, 3, 4] 0 (by decide)).mp ⟨by decide, fun _ _ _ => ?_⟩, ?_⟩
  · exact read_length (by decide)
  · exact read_length (by decide)
  · intro complete
    have answers := ((read_total_iff .longMode [0xb8, 1, 2] 0 (by decide)).mpr complete).1
    revert answers
    decide

theorem vex_payload_missing : ¬∀ (mode : Mode) (buf : List UInt8) (addr : UInt64),
    buf.length ≤ 15 → (read semantics mode buf addr).Settles ∧ ∀ len mne jumps,
      read semantics mode buf addr = .returns (len, mne, jumps) →
      1 ≤ len.toNat ∧ len.toNat ≤ buf.length ∧ mne.area = ⟨addr, addr + len⟩ := by
  intro claim
  have answers := (claim .longMode [0xc5] 0 (by decide)).1
  revert answers
  decide

end Panopticon.Proofs.Totality
