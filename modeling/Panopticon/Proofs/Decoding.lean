import Panopticon.Proofs.Operands

/-! Which bytes of its buffer the amd64 decoder looks at: all of them are counted in the length
of the instruction, but for the byte that selects an opcode whose operands then leave it alone. -/

namespace Panopticon.Amd64
open Panopticon.Library Panopticon.Library.Reader

variable {mode : Mode} {buf other : List UInt8} {addr : UInt64}

def Agrees (count : Nat) (buf other : List UInt8) : Prop := ∀ k < count, other[k]? = buf[k]?

theorem Agrees.mono {fewer count : Nat} (same : Agrees count buf other) (le : fewer ≤ count) : Agrees fewer buf other :=
  fun k below => same k (below.trans_le le)

theorem Agrees.of_take {count : Nat} (same : other.take count = buf.take count) : Agrees count buf other := by
  intro k below
  rw [← List.getElem?_take_of_lt below, same, List.getElem?_take_of_lt below]

theorem Agrees.take_drop {count start : Nat} (same : other.take (count + start) = buf.take (count + start)) :
    (other.drop start).take count = (buf.drop start).take count := by
  rw [List.take_drop, List.take_drop, Nat.add_comm start count, same]

section Lead
variable {pfx : Prefix} {lead next : Lead}

private theorem vex2_sees (read : vex2 buf pfx = .returns lead) :
    lead.i = 2 ∧ (Agrees 3 buf other → vex2 other pfx = .returns lead) := by
  constructor
  · simp only [vex2, Outcome.bind_eq_returns, Outcome.pure_eq, Outcome.returns.injEq] at read
    obtain ⟨_, _, _, _, rfl⟩ := read
    rfl
  · intro same
    rw [← read, vex2, vex2, same 1 (by decide)]

private theorem vex3_sees (read : vex3 buf pfx = .returns lead) :
    lead.i = 3 ∧ (Agrees 4 buf other → vex3 other pfx = .returns lead) := by
  constructor
  · simp only [vex3, Outcome.bind_eq_returns, Outcome.pure_eq, Outcome.returns.injEq] at read
    obtain ⟨_, _, _, _, _, _, _, _, rfl⟩ := read
    rfl
  · intro same
    rw [← read, vex3, vex3, same 1 (by decide), same 2 (by decide)]

private theorem evex_sees (read : evex buf pfx = .returns lead) :
    lead.i = 4 ∧ (Agrees 5 buf other → evex other pfx = .returns lead) := by
  constructor
  · simp only [evex, Outcome.bind_eq_returns, Outcome.pure_eq, Outcome.returns.injEq] at read
    obtain ⟨_, _, _, _, _, _, _, _, _, _, rfl⟩ := read
    rfl
  · intro same
    rw [← read, evex, evex, same 1 (by decide), same 2 (by decide), same 3 (by decide)]

private theorem xop_sees (read : xop buf pfx = .returns lead) :
    lead.i = 3 ∧ (Agrees 4 buf other → xop other pfx = .returns lead) := by
  constructor
  · simp only [xop, Outcome.bind_eq_returns, Outcome.pure_eq] at read
    obtain ⟨_, _, _, _, _, _, read⟩ := read
    split at read <;> cases read <;> rfl
  · intro same
    rw [← read, xop, xop, same 1 (by decide), same 2 (by decide)]

/-- What a byte that is no legacy prefix leads to. -/
def afterLegacy (mode : Mode) (buf : List UInt8) (i : Nat) (byte : UInt8) (pfx : Prefix) : Outcome String Lead :=
  if byte = 0xc5 ∧ i = 0 ∧ mode = .longMode then vex2 buf pfx
  else if byte = 0xc4 ∧ i = 0 ∧ mode = .longMode then vex3 buf pfx
  else if byte = 0x62 ∧ i = 0 ∧ mode = .longMode then evex buf pfx
  else if byte = 0x8f ∧ i = 0 ∧ mode = .longMode then xop buf pfx
  else if (0x40 ≤ byte ∧ byte ≤ 0x4f) ∧ mode = .longMode then .returns ⟨i + 1, rexPrefix byte pfx, false, true⟩
  else .returns ⟨i, pfx, false, false⟩

theorem readPrefixes_succ (left i : Nat) :
    readPrefixes mode buf (left + 1) i pfx = match buf[i]? with
      | none => .returns ⟨i, pfx, false, false⟩
      | some byte => match legacyPrefix mode i byte pfx with
        | some pfx => readPrefixes mode buf left (i + 1) pfx
        | none => afterLegacy mode buf i byte pfx := rfl

private theorem afterLegacy_sees {i : Nat} {byte : UInt8} (read : afterLegacy mode buf i byte pfx = .returns lead) :
    i ≤ lead.i ∧ (Agrees (lead.i + 1) buf other → afterLegacy mode other i byte pfx = .returns lead) := by
  unfold afterLegacy at read ⊢
  split_ifs at read ⊢ with first second third fourth
  · obtain ⟨at2, kept⟩ := vex2_sees read
    exact ⟨by omega, fun same => kept (same.mono (by omega))⟩
  · obtain ⟨at3, kept⟩ := vex3_sees read
    exact ⟨by omega, fun same => kept (same.mono (by omega))⟩
  · obtain ⟨at4, kept⟩ := evex_sees read
    exact ⟨by omega, fun same => kept (same.mono (by omega))⟩
  · obtain ⟨at3, kept⟩ := xop_sees read
    exact ⟨by omega, fun same => kept (same.mono (by omega))⟩
  · cases read
    exact ⟨Nat.le_succ i, fun _ => rfl⟩
  · cases read
    exact ⟨le_rfl, fun _ => rfl⟩

private theorem readPrefixes_sees {left i : Nat} (read : readPrefixes mode buf left i pfx = .returns lead) :
    i ≤ lead.i ∧ (Agrees (lead.i + 1) buf other → readPrefixes mode other left i pfx = .returns lead) := by
  induction left generalizing i pfx with
  | zero =>
    cases read
    exact ⟨le_rfl, fun _ => rfl⟩
  | succ left ih =>
    rw [readPrefixes_succ] at read ⊢
    -- the byte at `i` is the same in both, since the pass never ends before it
    cases found : buf[i]? with
    | none =>
      simp only [found, Outcome.returns.injEq] at read
      subst read
      refine ⟨le_rfl, fun same => ?_⟩
      simp only [same i (Nat.lt_succ_self i), found]
    | some byte =>
      simp only [found] at read
      cases legacy : legacyPrefix mode i byte pfx with
      | some pfx =>
        simp only [legacy] at read
        obtain ⟨advances, kept⟩ := ih read
        refine ⟨by omega, fun same => ?_⟩
        simp only [same i (by omega), found, legacy]
        exact kept same
      | none =>
        simp only [legacy] at read
        obtain ⟨advances, kept⟩ := afterLegacy_sees read
        refine ⟨advances, fun same => ?_⟩
        simp only [same i (by omega), found, legacy]
        exact kept same

private theorem readEscape_sees (read : readEscape buf addr lead = .returns next) :
    lead.i ≤ next.i ∧ (Agrees (next.i + 1) buf other → readEscape other addr lead = .returns next) := by
  unfold readEscape at read ⊢
  by_cases escaped : lead.vexxopPresent = false ∧ buf[lead.i]? = some 0x0f
  · rw [if_pos escaped] at read
    suffices later : lead.i + 1 ≤ next.i by
      refine ⟨by omega, fun same => ?_⟩
      rw [same lead.i (by omega), same (lead.i + 1) (by omega), if_pos escaped, read]
    split at read
    · cases read
      exact Nat.le_succ _
    · cases read
      exact Nat.le_succ _
    · cases read
      exact Nat.le_succ _
    · cases read
      exact le_rfl
    · cases read
  · rw [if_neg escaped] at read
    cases read
    refine ⟨le_rfl, fun same => ?_⟩
    rw [same lead.i (Nat.lt_succ_self _), if_neg escaped]

/-- Without the mandatory prefix, or else without the prefixes that repeat and lock. -/
def Lead.stripped (lead : Lead) (plain : Bool) : Lead :=
  if plain then { lead with pfx := { lead.pfx with simdPrefix := .none } }
  else { lead with pfx := { lead.pfx with lock := false, repe := false, repne := false } }

theorem stripPrefix_returns : stripPrefix buf addr lead = .returns next ↔
    if lead.pfx.opcodeEscape = .escape0F then
      ∃ b, buf[lead.i]? = some b ∧ lead.stripped (plainOpcode b lead.pfx.simdPrefix) = next
    else lead.stripped false = next := by
  unfold stripPrefix Lead.stripped
  cases found : lead.pfx.opcodeEscape <;> simp
  cases buf[lead.i]? with
  | none => simp
  | some b => by_cases plain : plainOpcode b lead.pfx.simdPrefix = true <;> simp [plain]

theorem stripPrefix_stripped (read : stripPrefix buf addr lead = .returns next) : ∃ plain, lead.stripped plain = next := by
  rw [stripPrefix_returns] at read
  split at read
  · obtain ⟨b, _, same⟩ := read
    exact ⟨_, same⟩
  · exact ⟨false, read⟩

private theorem stripPrefix_sees (read : stripPrefix buf addr lead = .returns next) (same : Agrees (lead.i + 1) buf other) :
    stripPrefix other addr lead = .returns next := by
  rw [← read, stripPrefix, stripPrefix, same lead.i (Nat.lt_succ_self _)]

@[simp] theorem Lead.stripped_i (plain : Bool) : (lead.stripped plain).i = lead.i := by
  cases plain <;> rfl

@[simp] theorem Lead.stripped_escape (plain : Bool) :
    (lead.stripped plain).pfx.opcodeEscape = lead.pfx.opcodeEscape := by
  cases plain <;> rfl

theorem lookupOpcode_lead {b : Nat} {entry : Entry} (found : lookupOpcode mode lead b = .returns entry) :
    entry.lead.i = lead.i ∧ entry.lead.pfx.opcodeEscape = lead.pfx.opcodeEscape ∧
      entry.lead.pfx.simdPrefix = lead.pfx.simdPrefix := by
  unfold lookupOpcode at found
  simp only [Outcome.pure_eq] at found
  split at found
  · split at found
    · cases found
      exact ⟨rfl, rfl, rfl⟩
    · obtain ⟨_, _, made⟩ := Outcome.bind_eq_returns.mp found
      cases made
      exact ⟨rfl, rfl, rfl⟩
  all_goals first
    | (obtain ⟨_, _, made⟩ := Outcome.bind_eq_returns.mp found; cases made; exact ⟨rfl, rfl, rfl⟩)
    | cases found

end Lead

/-- The prefixes and the escape bytes before an opcode. -/
def readLead (mode : Mode) (buf : List UInt8) (addr : UInt64) : Outcome String Lead :=
  readPrefixes mode buf 15 0 (.initial mode) >>= readEscape buf addr

section Entry
variable {lead : Lead} {entry : Entry}

private theorem readLead_sees (read : readLead mode buf addr = .returns lead) (same : Agrees (lead.i + 1) buf other) :
    readLead mode other addr = .returns lead := by
  obtain ⟨first, prefixes, escape⟩ := Outcome.bind_eq_returns.mp read
  obtain ⟨advances, kept⟩ := readEscape_sees escape
  exact Outcome.bind_eq_returns.mpr ⟨first, (readPrefixes_sees prefixes).2 (same.mono (by omega)), kept same⟩

theorem readEntry_returns : readEntry mode buf addr = .returns entry ↔
    ∃ lead next b, readLead mode buf addr = .returns lead ∧ lead.pfx.opcodeEscape ≠ .escape0F0F ∧
      stripPrefix buf addr lead = .returns next ∧ buf[next.i]? = some b ∧
      lookupOpcode mode next b.toNat = .returns entry := by
  unfold readEntry readLead
  constructor
  · intro read
    obtain ⟨first, prefixes, read⟩ := Outcome.bind_eq_returns.mp read
    obtain ⟨lead, escape, read⟩ := Outcome.bind_eq_returns.mp read
    split at read
    · cases read
    next known =>
      obtain ⟨next, strip, read⟩ := Outcome.bind_eq_returns.mp read
      split at read
      next b found => exact ⟨lead, next, b, Outcome.bind_eq_returns.mpr ⟨first, prefixes, escape⟩, known, strip, found, read⟩
      · cases read
  · intro holds
    obtain ⟨lead, next, b, leading, known, strip, found, looked⟩ := holds
    obtain ⟨first, prefixes, escape⟩ := Outcome.bind_eq_returns.mp leading
    simp only [prefixes, escape, strip, found, looked, known, Outcome.returns_bind, if_false]

theorem readEntry_lookup (read : readEntry mode buf addr = .returns entry) :
    ∃ lead b plain, readLead mode buf addr = .returns lead ∧ buf[lead.i]? = some b ∧
      stripPrefix buf addr lead = .returns (lead.stripped plain) ∧
      lookupOpcode mode (lead.stripped plain) b.toNat = .returns entry ∧
      (lead.pfx.opcodeEscape = .escape0F → plain = plainOpcode b lead.pfx.simdPrefix) := by
  obtain ⟨lead, next, b, leading, _, strip, found, looked⟩ := readEntry_returns.mp read
  have kept := strip
  rw [stripPrefix_returns] at strip
  split at strip
  · obtain ⟨b', found', rfl⟩ := strip
    rw [Lead.stripped_i] at found
    obtain rfl : b' = b := Option.some.inj (found'.symm.trans found)
    exact ⟨lead, b', _, leading, found, kept, looked, fun _ => rfl⟩
  next other =>
    obtain rfl := strip
    rw [Lead.stripped_i] at found
    exact ⟨lead, b, false, leading, found, kept, looked, fun same => absurd same other⟩

theorem readEntry_inside (read : readEntry mode buf addr = .returns entry) : entry.lead.i < buf.length := by
  obtain ⟨lead, b, plain, _, found, _, looked, _⟩ := readEntry_lookup read
  rw [(lookupOpcode_lead looked).1, Lead.stripped_i]
  exact (List.getElem?_eq_some_iff.mp found).1

theorem readEntry_sees (read : readEntry mode buf addr = .returns entry) (same : Agrees (entry.lead.i + 1) buf other) :
    readEntry mode other addr = .returns entry := by
  obtain ⟨lead, next, b, leading, known, strip, found, looked⟩ := readEntry_returns.mp read
  obtain ⟨plain, rfl⟩ := stripPrefix_stripped strip
  rw [(lookupOpcode_lead looked).1, Lead.stripped_i] at same
  rw [Lead.stripped_i] at found
  refine readEntry_returns.mpr ⟨lead, _, b, readLead_sees leading same, known, stripPrefix_sees strip same, ?_, looked⟩
  rw [Lead.stripped_i, same lead.i (Nat.lt_succ_self _), found]

/-- The mandatory prefix an opcode group is indexed with. -/
def Prefix.selector (pfx : Prefix) : SimdPrefix := if pfx.opcodeEscape ≠ .none then pfx.simdPrefix else .none

/-- How an entry leads to an opcode: directly, by the ModRM byte as the second byte of an x87
opcode, or by a ModRM byte that is left to the operands. -/
theorem resolve_cases {selected : Selected} (resolved : resolve mode buf addr entry = .returns selected) :
    (∃ name, entry.opcode.mnemonic = .single name ∧ selected = ⟨entry.opcode, entry.lead.i⟩) ∨
    ∃ opc modrm, buf[entry.lead.i]? = some opc ∧ buf[entry.lead.i + 1]? = some modrm ∧
      ((entry.opcode.mnemonic = .escape ∧ 0xc0 ≤ modrm ∧ selected.i = entry.lead.i + 1) ∨
      (entry.opcode.mnemonic = .escape ∧ selected.i = entry.lead.i ∧
        ∃ table, x87Memory opc.toNat = .returns table ∧
          table.index ((modrm.toNat >>> 3) &&& 0b111) = .returns selected.opcode) ∨
      ∃ grp, entry.opcode.mnemonic = .modrm grp ∧ selected.i = entry.lead.i ∧
        selectOpcodeExt grp opc.toNat modrm.toNat entry.lead.pfx.selector mode entry.lead.vexxopPresent =
          .returns selected.opcode) := by
  unfold resolve at resolved
  dsimp only at resolved
  split at resolved
  next name found =>
    cases resolved
    exact .inl ⟨name, found, rfl⟩
  · cases resolved
  next found =>
    split at resolved
    next esc modrm first second =>
      refine .inr ⟨esc, modrm, first, second, ?_⟩
      split at resolved
      · obtain ⟨table, known, resolved⟩ := Outcome.bind_eq_returns.mp resolved
        obtain ⟨opcode, indexed, resolved⟩ := Outcome.bind_eq_returns.mp resolved
        cases resolved
        exact .inr (.inl ⟨found, rfl, table, known, indexed⟩)
      next above =>
        obtain ⟨table, known, resolved⟩ := Outcome.bind_eq_returns.mp resolved
        obtain ⟨opcode, indexed, resolved⟩ := Outcome.bind_eq_returns.mp resolved
        cases resolved
        exact .inl ⟨found, UInt8.not_lt.mp above, rfl⟩
    · cases resolved
  next grp found =>
    split at resolved
    next opc modrm first second =>
      refine .inr ⟨opc, modrm, first, second, .inr (.inr ?_)⟩
      obtain ⟨opcode, chosen, resolved⟩ := Outcome.bind_eq_returns.mp resolved
      cases resolved
      exact ⟨grp, found, rfl, chosen⟩
    · cases resolved

end Entry

/-- None of the operands is held by the bytes after the opcode. -/
def Opcode.silent (opcode : Opcode) : Bool := opcode.operands.all OperandSpec.silent

def Opcode.named (opcode : Opcode) : Bool :=
  match opcode.mnemonic with
  | .single _ => true
  | _ => false

/-- Every opcode of the table that can be decoded has an operand in the bytes after it. -/
def OpcodeTable.loud (table : OpcodeTable) : Bool := table.entries.all fun entry => !entry.2.named || !entry.2.silent

/-- The ModRM bytes of group 7 that are opcodes of their own. -/
def registerForms : List Nat :=
  [0xc1, 0xc2, 0xc3, 0xc4, 0xc8, 0xc9, 0xca, 0xcb, 0xcf, 0xd1, 0xd4, 0xd5, 0xd6, 0xd7, 0xf8, 0xf9]

section Selection
variable {table : OpcodeTable} {opcode : Opcode} {grp opc modrm : Nat} {simd : SimdPrefix} {vexxop : Bool}

theorem OpcodeTable.index_mem {i : Nat} (found : table.index i = .returns opcode) :
    opcode = unused ∨ (i, opcode) ∈ table.entries := by
  unfold OpcodeTable.index at found
  split at found
  · cases listed : table.entries.lookup i with
    | none =>
      rw [listed] at found
      exact .inl (Outcome.returns.inj found).symm
    | some entry =>
      rw [listed] at found
      obtain rfl : entry = opcode := Outcome.returns.inj found
      obtain ⟨before, after, split, _⟩ := List.lookup_eq_some_iff.mp listed
      exact .inr (by simp [split])
  · cases found

theorem OpcodeTable.not_silent {i : Nat} (loud : table.loud = true) (found : table.index i = .returns opcode)
    (named : opcode.named = true) : opcode.silent = false := by
  obtain rfl | member := table.index_mem found
  · cases named
  · simpa [named] using List.all_eq_true.mp loud _ member

private theorem x87Memory_loud (known : x87Memory opc = .returns table) : table.loud = true := by
  unfold x87Memory at known
  split at known <;> cases known <;> decide

/-- Opcodes selected by the ModRM byte leave it to their operands, but for three groups, and one that no table uses. -/
theorem selectOpcodeExt_silent (chosen : selectOpcodeExt grp opc modrm simd mode vexxop = .returns opcode)
    (named : opcode.named = true) (silent : opcode.silent = true) :
    (grp = 7 ∧ opc = 0x01) ∨ (grp = 10 ∧ opc = 0xb9) ∨ (grp = 15 ∧ opc = 0xae) ∨ grp = 102 := by
  unfold selectOpcodeExt at chosen
  dsimp only at chosen
  split at chosen
  all_goals first
    | exact .inl ⟨rfl, rfl⟩
    | exact .inr (.inl ⟨rfl, rfl⟩)
    | exact .inr (.inr (.inl ⟨rfl, rfl⟩))
    | exact .inr (.inr (.inr rfl))
    | (rw [OpcodeTable.not_silent (by decide) chosen named] at silent; cases silent)
    | (repeat' split at chosen) <;> first
      | (cases chosen; done)
      | (cases chosen; cases named; done)
      | (cases chosen; cases silent)
      | (rw [OpcodeTable.not_silent (by decide) chosen named] at silent; cases silent)

/-- No entry leaves the choice to one of the groups. -/
def OpcodeTable.avoids (groups : List Nat) (table : OpcodeTable) : Bool :=
  table.entries.all fun entry => match entry.2.mnemonic with
    | .modrm grp => grp ∉ groups
    | _ => true

theorem OpcodeTable.not_mem_of_avoids {groups : List Nat} {i : Nat} (avoids : table.avoids groups = true)
    (found : table.index i = .returns opcode) (group : opcode.mnemonic = .modrm grp) : grp ∉ groups := by
  obtain rfl | member := table.index_mem found
  · cases group
  · simpa [group] using List.all_eq_true.mp avoids _ member

private theorem lookupOpcode_group {lead : Lead} {b : Nat} {entry : Entry} (found : lookupOpcode mode lead b = .returns entry)
    (group : entry.opcode.mnemonic = .modrm grp) (listed : grp ∈ [7, 10, 15, 102]) :
    lead.pfx.opcodeEscape = .escape0F ∧ grp ≠ 102 := by
  unfold lookupOpcode at found
  simp only [Outcome.pure_eq] at found
  split at found
  · split at found
    · cases found
      cases group
    · obtain ⟨_, indexed, made⟩ := Outcome.bind_eq_returns.mp found
      cases made
      exact absurd listed (onebyteTable.not_mem_of_avoids (by decide +kernel) indexed group)
  all_goals first
    | cases found
    | (obtain ⟨_, indexed, made⟩ := Outcome.bind_eq_returns.mp found
       cases made
       first
       | exact absurd listed (OpcodeTable.not_mem_of_avoids (by decide) indexed group)
       | (have other : grp ∉ [102] := OpcodeTable.not_mem_of_avoids (by decide) indexed group
          exact ⟨by assumption, by simpa using other⟩))

/-- The opcodes of the two byte map that are selected by a ModRM byte without an operand in it. -/
def overlooked (opc modrm : Nat) : Bool := opc = 0xae || opc = 0xb9 || (opc = 0x01 && modrm ∈ registerForms)

def selectCheck (mode : Mode) (vexxop : Bool) (grp opc modrm : Nat) : Bool :=
  match selectOpcodeExt grp opc modrm .none mode vexxop with
  | .returns opcode => !opcode.named || opcode.silent == overlooked opc modrm
  | _ => true

private theorem selectCheck_all :
    ∀ group ∈ [(7, 0x01), (10, 0xb9), (15, 0xae)], ∀ modrm < 256, selectCheck mode vexxop group.1 group.2 modrm = true := by
  cases mode <;> cases vexxop <;> decide +kernel

theorem silent_iff_overlooked (chosen : selectOpcodeExt grp opc modrm .none mode vexxop = .returns opcode)
    (named : opcode.named = true) (byte : modrm < 256) (listed : (grp, opc) ∈ [(7, 0x01), (10, 0xb9), (15, 0xae)]) :
    opcode.silent = overlooked opc modrm := by
  have check : selectCheck mode vexxop grp opc modrm = true := selectCheck_all _ listed modrm byte
  simpa [selectCheck, chosen, named] using check

end Selection

section Instruction
variable {semantic : Semantics} {c : Context} {name : String} {selected : Selected} {len : UInt64} {mne : Mnemonic}
  {jumps : List (Rvalue × Guard)}

/-- A decoded instruction: its operands were read, and end where the instruction does. -/
theorem readInstruction_returns (read : readInstruction semantic c name selected buf addr = .returns (len, mne, jumps)) :
    selected.i + 1 ≤ buf.length ∧ ∃ operands tail,
      c.readOperands selected.opcode.operands (buf.drop (selected.i + 1)) ⟨0, none, none⟩ = .returns (operands, tail) ∧
      len = (tail.position + (selected.i + 1)).toUInt64 ∧ mne.area = ⟨addr, addr + len⟩ ∧
      ∀ {other : List UInt8}, selected.i + 1 ≤ other.length →
        c.readOperands selected.opcode.operands (other.drop (selected.i + 1)) ⟨0, none, none⟩ =
          .returns (operands, tail) →
        readInstruction semantic c name selected other addr = .returns (len, mne, jumps) := by
  have kept := read
  unfold readInstruction at read
  dsimp only at read
  split at read
  next inside =>
    obtain ⟨⟨operands, tail⟩, first, read⟩ := Outcome.bind_eq_returns.mp read
    refine ⟨inside, operands, tail, first, ?_, ?_, fun {other} inside' same => ?_⟩
    · obtain ⟨_, _, read⟩ := Outcome.bind_eq_returns.mp read
      obtain ⟨_, _, read⟩ := Outcome.bind_eq_returns.mp read
      cases read
      rfl
    · obtain ⟨_, _, read⟩ := Outcome.bind_eq_returns.mp read
      obtain ⟨_, _, read⟩ := Outcome.bind_eq_returns.mp read
      cases read
      rfl
    · rw [← kept]
      unfold readInstruction
      dsimp only
      rw [if_pos inside, if_pos inside', first, same]
  · cases read

theorem read_returns {result : UInt64 × Mnemonic × List (Rvalue × Guard)} :
    read semantic mode buf addr = .returns result ↔ ∃ entry selected operandSize name,
      readEntry mode buf addr = .returns entry ∧ resolve mode buf addr entry = .returns selected ∧
      applyOption mode selected.opcode.option entry.lead.pfx.operandSize = .ok operandSize ∧
      selected.opcode.mnemonic = .single name ∧
      readInstruction semantic (operandContext mode addr entry.lead selected.i operandSize) name selected buf addr =
        .returns result := by
  unfold read
  simp only [Outcome.bind_eq_returns, Outcome.ofExcept_eq_returns]
  constructor
  · intro holds
    obtain ⟨entry, entered, selected, resolved, operandSize, sized, rest⟩ := holds
    split at rest
    next name named => exact ⟨entry, selected, operandSize, name, entered, resolved, sized, named, rest⟩
    · cases rest
  · intro holds
    obtain ⟨entry, selected, operandSize, name, entered, resolved, sized, named, rest⟩ := holds
    refine ⟨entry, entered, selected, resolved, operandSize, sized, ?_⟩
    simp only [named, rest]

theorem position_eq_zero_iff {opcode : Opcode} {input : List UInt8} {operands : Operands} {tail : Cursor Tail}
    (read : c.readOperands opcode.operands input ⟨0, none, none⟩ = .returns (operands, tail)) :
    tail.position = 0 ↔ opcode.silent = true := by
  unfold Opcode.silent
  constructor
  · intro still
    by_contra loud
    have loud : ∃ spec ∈ opcode.operands, spec.silent = false := by simpa using loud
    have moved := c.readOperands_moves loud input _ operands tail (by intro known; cases known) read
    exact absurd still (Nat.ne_of_gt moved)
  · intro silent
    rw [c.readOperands_stays (List.all_eq_true.mp silent) read]

/-- The byte that selects the opcode is not among those of the instruction: one of the opcodes
`0f 01`, `0f ae` and `0f b9` with a ModRM byte that its operands do not read. -/
def Overlooked (mode : Mode) (buf : List UInt8) (addr : UInt64) : Prop :=
  ∃ lead opc modrm, readLead mode buf addr = .returns lead ∧ lead.pfx.opcodeEscape = .escape0F ∧
    buf[lead.i]? = some opc ∧ buf[lead.i + 1]? = some modrm ∧ overlooked opc.toNat modrm.toNat = true

/-- The choice of an opcode rests on a byte that is neither part of the opcode nor an operand. -/
def Peeks (entry : Entry) (selected : Selected) : Prop :=
  entry.opcode.named = false ∧ selected.i = entry.lead.i ∧ selected.opcode.silent = true

variable {entry : Entry}

theorem byte_eq {b : UInt8} {n : Nat} (same : b.toNat = n) : b = UInt8.ofNat n := by
  rw [← same, UInt8.ofNat_toNat]

theorem plainOpcode_one (simd : SimdPrefix) : plainOpcode 0x01 simd = true := by
  cases simd <;> decide

theorem selector_eq_none {lead : Lead} {b : Nat} {plain : Bool}
    (looked : lookupOpcode mode (lead.stripped plain) b = .returns entry) (opened : plain = true) :
    entry.lead.pfx.selector = .none := by
  obtain ⟨_, _, sameSimd⟩ := lookupOpcode_lead looked
  subst opened
  unfold Prefix.selector
  split
  · exact sameSimd
  · rfl

theorem Peeks.overlooked (peeks : Peeks entry selected) (entered : readEntry mode buf addr = .returns entry)
    (resolved : resolve mode buf addr entry = .returns selected) (named : selected.opcode.named = true) :
    Overlooked mode buf addr := by
  obtain ⟨indirect, here, silent⟩ := peeks
  obtain ⟨lead, b, plain, leading, found, _, looked, stripped⟩ := readEntry_lookup entered
  obtain ⟨atLead, sameEscape, sameSimd⟩ := lookupOpcode_lead looked
  rw [Lead.stripped_i] at atLead
  rw [Lead.stripped_escape] at sameEscape
  obtain ⟨_, single, _⟩ | ⟨opc, modrm, first, second, cases⟩ := resolve_cases resolved
  · simp [Opcode.named, single] at indirect
  rw [atLead] at first second
  obtain rfl : b = opc := Option.some.inj (found.symm.trans first)
  obtain ⟨_, _, later⟩ | ⟨_, _, table, memory, indexed⟩ | ⟨grp, group, _, chosen⟩ := cases
  · omega
  · rw [table.not_silent (x87Memory_loud memory) indexed named] at silent
    cases silent
  -- the groups left are those of the two byte map
  have kinds := selectOpcodeExt_silent chosen named silent
  obtain ⟨twobyte, other⟩ := lookupOpcode_group looked group (by simp; tauto)
  rw [Lead.stripped_escape] at twobyte
  refine ⟨lead, b, modrm, leading, twobyte, found, second, ?_⟩
  obtain ⟨rfl, one⟩ | ⟨_, ud⟩ | ⟨_, fence⟩ | unlisted := kinds
  · have opened : plain = true := by
      rw [stripped twobyte, byte_eq one]
      exact plainOpcode_one _
    rw [selector_eq_none looked opened] at chosen
    rw [← silent_iff_overlooked chosen named modrm.toNat_lt (by simp [one])]
    exact silent
  · simp [Amd64.overlooked, ud]
  · simp [Amd64.overlooked, fence]
  · exact absurd unlisted other

private theorem lookupOpcode_twobyte {lead : Lead} {b : Nat} (looked : lookupOpcode mode lead b = .returns entry)
    (twobyte : lead.pfx.opcodeEscape = .escape0F) :
    (lead.pfx.simdPrefix = .none → twobyteTable.index b = .returns entry.opcode) ∧
    (lead.pfx.simdPrefix = .prefixF3 → twobyteF3Table.index b = .returns entry.opcode) := by
  unfold lookupOpcode at looked
  constructor
  · intro simd
    simp only [twobyte, simd] at looked
    obtain ⟨_, indexed, made⟩ := Outcome.bind_eq_returns.mp looked
    cases made
    exact indexed
  · intro simd
    simp only [twobyte, simd] at looked
    obtain ⟨_, indexed, made⟩ := Outcome.bind_eq_returns.mp looked
    cases made
    exact indexed

theorem Overlooked.group {lead : Lead} {b modrm : UInt8} {plain : Bool}
    (looked : lookupOpcode mode (lead.stripped plain) b.toNat = .returns entry)
    (twobyte : lead.pfx.opcodeEscape = .escape0F) (stripped : plain = plainOpcode b lead.pfx.simdPrefix)
    (kind : overlooked b.toNat modrm.toNat = true) (decoded : entry.opcode ≠ unused) :
    plain = true ∧ ∃ grp, entry.opcode.mnemonic = .modrm grp ∧
      (grp, b.toNat) ∈ [(7, 0x01), (10, 0xb9), (15, 0xae)] := by
  have table := lookupOpcode_twobyte looked (by rwa [Lead.stripped_escape])
  have opened : plain = true → twobyteTable.index b.toNat = .returns entry.opcode := by
    rintro rfl
    exact table.1 rfl
  simp only [Amd64.overlooked, Bool.or_eq_true, Bool.and_eq_true, decide_eq_true_eq] at kind
  obtain (fence | ud) | ⟨one, _⟩ := kind
  · have open' : plain = true := by
      rw [stripped, byte_eq fence]
      cases lead.pfx.simdPrefix <;> decide
    have indexed := opened open'
    rw [fence] at indexed ⊢
    refine ⟨open', 15, ?_, by simp⟩
    rw [← Outcome.returns.inj indexed]
    rfl
  · have open' : plain = true := by
      rw [byte_eq ud] at stripped
      cases simd : lead.pfx.simdPrefix with
      | prefixF3 =>
        rw [simd] at stripped
        cases stripped
        -- under that prefix the byte is no opcode
        have indexed := table.2 simd
        rw [ud] at indexed
        exact absurd (Outcome.returns.inj indexed).symm decoded
      | _ => rw [stripped, simd]; decide
    have indexed := opened open'
    rw [ud] at indexed ⊢
    refine ⟨open', 10, ?_, by simp⟩
    rw [← Outcome.returns.inj indexed]
    rfl
  · have open' : plain = true := by
      rw [stripped, byte_eq one]
      exact plainOpcode_one _
    have indexed := opened open'
    rw [one] at indexed ⊢
    refine ⟨open', 7, ?_, by simp⟩
    rw [← Outcome.returns.inj indexed]
    rfl

theorem Overlooked.peeks (unseen : Overlooked mode buf addr) (entered : readEntry mode buf addr = .returns entry)
    (resolved : resolve mode buf addr entry = .returns selected) (named : selected.opcode.named = true) :
    Peeks entry selected := by
  obtain ⟨lead, b, modrm, leading, twobyte, found, second, kind⟩ := unseen
  obtain ⟨lead', b', plain, leading', found', _, looked, stripped⟩ := readEntry_lookup entered
  obtain rfl : lead = lead' := Outcome.returns.inj (leading.symm.trans leading')
  obtain rfl : b = b' := Option.some.inj (found.symm.trans found')
  have decoded : entry.opcode ≠ unused := by
    intro none
    rw [resolve, none] at resolved
    cases resolved
  obtain ⟨opened, grp, group, listed⟩ := Overlooked.group looked twobyte (stripped twobyte) kind decoded
  have atLead := (lookupOpcode_lead looked).1
  rw [Lead.stripped_i] at atLead
  obtain ⟨_, single, _⟩ | ⟨opc, modrm', first, second', cases⟩ := resolve_cases resolved
  · rw [group] at single
    cases single
  rw [atLead] at first second'
  obtain rfl : b = opc := Option.some.inj (found.symm.trans first)
  obtain rfl : modrm = modrm' := Option.some.inj (second.symm.trans second')
  obtain ⟨escape, _, _⟩ | ⟨escape, _⟩ | ⟨grp', group', here, chosen⟩ := cases
  · rw [group] at escape
    cases escape
  · rw [group] at escape
    cases escape
  · obtain rfl : grp = grp' := MnemonicSpec.modrm.inj (group.symm.trans group')
    rw [selector_eq_none looked opened] at chosen
    refine ⟨by simp [Opcode.named, group], here, ?_⟩
    rw [silent_iff_overlooked chosen named modrm.toNat_lt listed, kind]

private theorem resolve_i (resolved : resolve mode buf addr entry = .returns selected) :
    selected.i = entry.lead.i ∨ selected.i = entry.lead.i + 1 := by
  obtain ⟨_, _, rfl⟩ | ⟨_, _, _, _, ⟨_, _, later⟩ | ⟨_, here, _⟩ | ⟨_, _, here, _⟩⟩ := resolve_cases resolved
  · exact .inl rfl
  · exact .inr later
  · exact .inl here
  · exact .inl here

/-- The byte after the opcode matters unless the table entry is an opcode by itself. -/
theorem resolve_sees (resolved : resolve mode buf addr entry = .returns selected)
    (after : entry.opcode.named = false → Agrees (entry.lead.i + 2) buf other) :
    resolve mode other addr entry = .returns selected := by
  cases named : entry.opcode.named with
  | true =>
    rw [← resolved]
    unfold Opcode.named at named
    unfold resolve
    split at named
    next single => simp only [single]
    · cases named
  | false =>
    have same := after named
    rw [← resolved, resolve, resolve, same entry.lead.i (by omega), same (entry.lead.i + 1) (by omega)]

theorem toNat_length {buf : List UInt8} {n : Nat} (short : buf.length ≤ 15) (inside : n ≤ buf.length) :
    n.toUInt64.toNat = n := by
  simp only [Nat.toUInt64_eq, UInt64.toNat_ofNat']
  omega

end Instruction
end Panopticon.Amd64

namespace Panopticon.Proofs.Decoding
open Panopticon.Library Panopticon.Library.Reader Panopticon.Amd64

theorem read_determined_iff (semantic : Semantics) (mode : Mode) (buf : List UInt8) (addr len : UInt64)
    (mne : Mnemonic) (jumps : List (Rvalue × Guard)) (short : buf.length ≤ 15)
    (decoded : read semantic mode buf addr = .returns (len, mne, jumps)) :
    (∀ other : List UInt8, other.length ≤ 15 → len.toNat ≤ other.length →
        other.take len.toNat = buf.take len.toNat → read semantic mode other addr = .returns (len, mne, jumps)) ↔
      ¬Overlooked mode buf addr := by
  obtain ⟨entry, selected, operandSize, name, entered, resolved, sized, single, instruction⟩ := read_returns.mp decoded
  obtain ⟨inside, operands, tail, operandsRead, lenEq, _, again⟩ := readInstruction_returns instruction
  have named : selected.opcode.named = true := by simp [Opcode.named, single]
  have reads := Context.readOperands_local (operandContext mode addr entry.lead selected.i operandSize)
    selected.opcode.operands
  have within : tail.position + (selected.i + 1) ≤ buf.length := by
    have := reads.within operandsRead (Nat.zero_le _)
    rw [List.length_drop] at this
    omega
  have length : len.toNat = tail.position + (selected.i + 1) := by rw [lenEq, toNat_length short within]
  have step := resolve_i resolved
  rw [length]
  constructor
  · intro determined unseen
    obtain ⟨indirect, here, silent⟩ := unseen.peeks entered resolved named
    have still := (position_eq_zero_iff operandsRead).mpr silent
    -- the bytes of the instruction alone do not reach the selecting byte
    have cut : (buf.take (entry.lead.i + 1)).length = entry.lead.i + 1 := by
      rw [List.length_take]
      omega
    have shorter := determined (buf.take (entry.lead.i + 1)) (by omega) (by omega) (by
      rw [List.take_take]
      congr 1
      omega)
    obtain ⟨entry', selected', _, _, entered', resolved', _⟩ := read_returns.mp shorter
    have sameEntry := readEntry_sees entered (Agrees.of_take (List.take_take.trans (by rw [Nat.min_self])))
    obtain rfl : entry' = entry := Outcome.returns.inj (entered'.symm.trans sameEntry)
    obtain ⟨_, direct, _⟩ | ⟨_, _, _, second, _⟩ := resolve_cases resolved'
    · simp [Opcode.named, direct] at indirect
    · have := (List.getElem?_eq_some_iff.mp second).1
      omega
  · intro seen other _ long same
    have agrees := Agrees.of_take same
    have sameEntry := readEntry_sees entered (agrees.mono (by omega))
    have sameSelected : resolve mode other addr entry = .returns selected := by
      refine resolve_sees resolved fun indirect => agrees.mono ?_
      obtain here | later := step
      · have moved : tail.position ≠ 0 := by
          intro still
          exact seen (Peeks.overlooked ⟨indirect, here, (position_eq_zero_iff operandsRead).mp still⟩ entered resolved
            named)
        omega
      · omega
    refine read_returns.mpr ⟨entry, selected, operandSize, name, sameEntry, sameSelected, sized, single, ?_⟩
    refine again (by omega) (reads.sees operandsRead ?_ (Agrees.take_drop same))
    rw [List.length_drop]
    omega

/-- A semantic function that gives no code, as those of most system instructions. -/
def codeless : Semantics := fun _ _ => .returns ([], .fallThru)

theorem vmcall_overlooked : ¬∀ (semantic : Semantics) (mode : Mode) (buf other : List UInt8) (addr len : UInt64)
    (mne : Mnemonic) (jumps : List (Rvalue × Guard)), buf.length ≤ 15 → other.length ≤ 15 →
    read semantic mode buf addr = .returns (len, mne, jumps) → len.toNat ≤ other.length →
    other.take len.toNat = buf.take len.toNat → read semantic mode other addr = .returns (len, mne, jumps) := by
  intro claim
  have same := claim codeless .longMode [0x0f, 0x01, 0xc1] [0x0f, 0x01, 0xc2] 0 2 ⟨⟨0, 2⟩, "vmcall", [], [], []⟩
    [(.constant 2 64, .always)] (by decide) (by decide) (by decide) (by decide) (by decide)
  revert same
  decide

theorem smsw_determined : ¬Overlooked .longMode [0x0f, 0x01, 0xe0] 0 ∧
    read codeless .longMode [0x0f, 0x01, 0xe0, 0x90] 0 =
      .returns (3, ⟨⟨0, 3⟩, "smsw", [.var "AX" none 0 16], [], [.var false]⟩, [(.constant 3 64, .always)]) := by
  have seen : ¬Overlooked .longMode [0x0f, 0x01, 0xe0] 0 := by
    intro holds
    obtain ⟨lead, opc, modrm, leading, _, found, second, kind⟩ := holds
    have known : readLead .longMode [0x0f, 0x01, 0xe0] 0 =
        .returns ⟨1, { Prefix.initial .longMode with opcodeEscape := .escape0F }, false, false⟩ := by decide
    obtain rfl := Outcome.returns.inj (known.symm.trans leading)
    cases found
    cases second
    revert kind
    decide
  refine ⟨seen, (read_determined_iff codeless .longMode [0x0f, 0x01, 0xe0] 0 3 _ _ (by decide) ?_).mpr seen
    [0x0f, 0x01, 0xe0, 0x90] (by decide) (by decide) (by decide)⟩
  decide

end Panopticon.Proofs.Decoding
