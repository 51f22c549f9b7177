import Panopticon.Amd64.Groups
import Panopticon.BasicBlock

/-! The amd64 decoder: prefixes and escapes, the choice of the opcode, its operands and the
mnemonic made of them. The functions that give an opcode its RREIL code are a parameter. -/

namespace Panopticon.Amd64
open Panopticon.Library

inductive BranchHint where
  | none | taken | notTaken
  deriving DecidableEq, Repr

inductive SimdPrefix where
  | none | prefixF2 | prefixF3 | prefix66
  deriving DecidableEq, Repr

def SimdPrefix.debug : SimdPrefix → String
  | .none => "None"
  | .prefixF2 => "PrefixF2"
  | .prefixF3 => "PrefixF3"
  | .prefix66 => "Prefix66"

inductive OpcodeEscape where
  | none | escape0F | escape0F0F | escape0F38 | escape0F3A | xop8 | xop9 | xopA
  deriving DecidableEq, Repr

structure Prefix where
  lock : Bool
  repe : Bool
  repne : Bool
  segOverride : SegmentOverride
  branchHint : BranchHint
  operandSize : Nat
  addressSize : Nat
  simdSize : Nat
  simdPrefix : SimdPrefix
  opcodeEscape : OpcodeEscape
  vvvv : Option UInt8
  rexR : Bool
  rexB : Bool
  rexX : Bool
  rexW : Bool
  deriving DecidableEq, Repr

def Prefix.initial (mode : Mode) : Prefix where
  lock := false
  repe := false
  repne := false
  segOverride := .none
  branchHint := .none
  operandSize := match mode with
    | .realMode => 16
    | .protectedMode | .longMode => 32
  addressSize := match mode with
    | .realMode => 16
    | .protectedMode => 32
    | .longMode => 64
  simdSize := 128
  simdPrefix := .none
  opcodeEscape := .none
  vvvv := none
  rexR := false
  rexB := false
  rexX := false
  rexW := false

/-- Where the opcode is expected, under which prefixes. -/
structure Lead where
  i : Nat
  pfx : Prefix
  vexxopPresent : Bool
  rexPresent : Bool
  deriving DecidableEq, Repr

/-- One byte of the four groups of legacy prefixes. A second one of the first two groups is ignored. -/
def legacyPrefix (mode : Mode) (i : Nat) (byte : UInt8) (pfx : Prefix) : Option Prefix :=
  let repeated := pfx.lock || pfx.repe || pfx.repne
  let overridden := pfx.segOverride ≠ .none
  let mandatory := fun simd => if i = 0 then simd else pfx.simdPrefix
  match byte with
  | 0xf0 => some (if repeated then pfx else { pfx with lock := true })
  | 0xf2 => some (if repeated then pfx else { pfx with repne := true, simdPrefix := mandatory .prefixF2 })
  | 0xf3 => some (if repeated then pfx else { pfx with repe := true, simdPrefix := mandatory .prefixF3 })
  | 0x2e => some (if overridden then pfx else { pfx with segOverride := .cs, branchHint := .notTaken })
  | 0x36 => some (if overridden then pfx else { pfx with segOverride := .ss })
  | 0x3e => some (if overridden then pfx else { pfx with segOverride := .ds, branchHint := .taken })
  | 0x26 => some (if overridden then pfx else { pfx with segOverride := .es })
  | 0x64 => some (if overridden then pfx else { pfx with segOverride := .fs })
  | 0x65 => some (if overridden then pfx else { pfx with segOverride := .gs })
  | 0x66 =>
    let size := match mode with
      | .longMode | .protectedMode => 16
      | .realMode => 32
    some { pfx with operandSize := size, simdPrefix := mandatory .prefix66 }
  | 0x67 =>
    let size := match mode with
      | .realMode | .longMode => 32
      | .protectedMode => 16
    some { pfx with addressSize := size }
  | _ => none

/-- The mandatory prefix a VEX, EVEX or XOP payload stands for. -/
def payloadPrefix (bits : UInt8) : Outcome String SimdPrefix :=
  match bits with
  | 0 => .returns .none
  | 1 => .returns .prefix66
  | 2 => .returns .prefixF3
  | 3 => .returns .prefixF2
  | _ => .panics

def payloadEscape (name : String) (bits : UInt8) : Outcome String OpcodeEscape :=
  match bits with
  | 1 => .returns .escape0F
  | 2 => .returns .escape0F38
  | 3 => .returns .escape0F3A
  | _ => .fails ("Unknown instruction: " ++ name ++ " w/ opcode escape 0x" ++ digits 16 bits.toNat)

def payloadRegister (payload : UInt8) : UInt8 := ((0xff : UInt8) ^^^ (payload >>> 3)) &&& 0b1111

def vex2 (buf : List UInt8) (pfx : Prefix) : Outcome String Lead := do
  let vex ← .unwrap buf[1]?
  let simd ← payloadPrefix (vex &&& 0b11)
  return {
    i := 2
    pfx := { pfx with
      simdPrefix := simd
      opcodeEscape := .escape0F
      simdSize := if vex &&& 0b100 ≠ 0 then 256 else pfx.simdSize
      vvvv := some (payloadRegister vex)
      rexR := vex &&& 0b1000000 = 0 }
    vexxopPresent := true
    rexPresent := true }

def vex3 (buf : List UInt8) (pfx : Prefix) : Outcome String Lead := do
  let vex1 ← .unwrap buf[1]?
  let vex2 ← .unwrap buf[2]?
  let simd ← payloadPrefix (vex2 &&& 0b11)
  let escape ← payloadEscape "3 byte VEX" (vex1 &&& 0b1111)
  return {
    i := 3
    pfx := { pfx with
      simdPrefix := simd
      opcodeEscape := escape
      simdSize := if vex2 &&& 0b100 ≠ 0 then 256 else pfx.simdSize
      vvvv := some (payloadRegister vex2)
      rexR := vex1 &&& 0b1000000 = 0
      rexX := vex1 &&& 0b0100000 = 0
      rexB := vex1 &&& 0b0010000 = 0
      rexW := vex2 &&& 0b1000000 = 0 }
    vexxopPresent := true
    rexPresent := true }

def evex (buf : List UInt8) (pfx : Prefix) : Outcome String Lead := do
  let p0 ← .unwrap buf[1]?
  let p1 ← .unwrap buf[2]?
  let p2 : UInt8 ← .unwrap buf[3]?
  let simd ← payloadPrefix (p1 &&& 0b11)
  let escape ← payloadEscape "EVEX" (p0 &&& 0b11)
  return {
    i := 4
    pfx := { pfx with
      simdPrefix := simd
      opcodeEscape := escape
      simdSize := if p2 &&& 0b100000 ≠ 0 then 256 else pfx.simdSize
      vvvv := some (payloadRegister p1)
      rexR := p0 &&& 0b1000000 = 0
      rexX := p0 &&& 0b0100000 = 0
      rexB := p0 &&& 0b0010000 = 0
      rexW := p1 &&& 0b1000000 = 0 }
    vexxopPresent := true
    rexPresent := true }

def xop (buf : List UInt8) (pfx : Prefix) : Outcome String Lead := do
  let xop1 ← .unwrap buf[1]?
  let xop2 ← .unwrap buf[2]?
  let simd ← payloadPrefix (xop2 &&& 0b11)
  let escape ← match xop1 &&& 0b1111 with
    | 0b1000 => .returns .xop8
    | 0b1001 => .returns .xop9
    | 0b1010 => .returns .xopA
    | bits => .fails ("Unknown instruction: XOP w/ opcode escape 0x" ++ digits 16 bits.toNat)
  return {
    i := 3
    pfx := { pfx with simdPrefix := simd, opcodeEscape := escape }
    vexxopPresent := true
    rexPresent := false }

def rexPrefix (rex : UInt8) (pfx : Prefix) : Prefix :=
  let w := rex &&& 0b1000 ≠ 0
  { pfx with
    rexW := w
    rexR := rex &&& 0b0100 ≠ 0
    rexX := rex &&& 0b0010 ≠ 0
    rexB := rex &&& 0b0001 ≠ 0
    operandSize := if w ∧ pfx.operandSize = 32 then 64 else pfx.operandSize }

/-- The prefix loop. `left` counts down from 15 while `i` counts up. -/
def readPrefixes (mode : Mode) (buf : List UInt8) : (left i : Nat) → Prefix → Outcome String Lead
  | 0, i, pfx => .returns ⟨i, pfx, false, false⟩
  | left + 1, i, pfx =>
    match buf[i]? with
    | none => .returns ⟨i, pfx, false, false⟩
    | some byte =>
      match legacyPrefix mode i byte pfx with
      | some pfx => readPrefixes mode buf left (i + 1) pfx
      | none =>
        let extended := i = 0 ∧ mode = .longMode
        if byte = 0xc5 ∧ extended then vex2 buf pfx
        else if byte = 0xc4 ∧ extended then vex3 buf pfx
        else if byte = 0x62 ∧ extended then evex buf pfx
        else if byte = 0x8f ∧ extended then xop buf pfx
        else if (0x40 ≤ byte ∧ byte ≤ 0x4f) ∧ mode = .longMode then
          .returns ⟨i + 1, rexPrefix byte pfx, false, true⟩
        else .returns ⟨i, pfx, false, false⟩

def prematureEnd (addr : UInt64) (what : String) : String :=
  "Premature buffer end at 0x" ++ digits 16 addr.toNat ++ " while fetching " ++ what

def readEscape (buf : List UInt8) (addr : UInt64) (lead : Lead) : Outcome String Lead :=
  if lead.vexxopPresent = false ∧ buf[lead.i]? = some 0x0f then
    match buf[lead.i + 1]? with
    | some 0x38 => .returns { lead with i := lead.i + 2, pfx := { lead.pfx with opcodeEscape := .escape0F38 } }
    | some 0x3a => .returns { lead with i := lead.i + 2, pfx := { lead.pfx with opcodeEscape := .escape0F3A } }
    | some 0x0f => .returns { lead with i := lead.i + 2, pfx := { lead.pfx with opcodeEscape := .escape0F0F } }
    | some _ => .returns { lead with i := lead.i + 1, pfx := { lead.pfx with opcodeEscape := .escape0F } }
    | none => .fails (prematureEnd addr "opcode escape byte")
  else .returns lead

/-- Opcodes of the two byte map that take no mandatory prefix. -/
def plainOpcode (b : UInt8) (simd : SimdPrefix) : Bool :=
  b ≤ 0x0f ∨ (0x18 ≤ b ∧ b ≤ 0x27) ∨ (0x30 ≤ b ∧ b ≤ 0x4f) ∨ (0x80 ≤ b ∧ b ≤ 0xb7) ∨
    (0xb8 ≤ b ∧ b ≤ 0xbf ∧ simd ≠ .prefixF3) ∨ b = 0xc0 ∨ b = 0xc1 ∨ (0xc8 ≤ b ∧ b ≤ 0xcf)

/-- Removes the prefixes that are not mandatory for the opcode. -/
def stripPrefix (buf : List UInt8) (addr : UInt64) (lead : Lead) : Outcome String Lead := do
  let plain ← match lead.pfx.opcodeEscape with
    | .escape0F => match buf[lead.i]? with
      | some b => Outcome.returns (plainOpcode b lead.pfx.simdPrefix)
      | none => .fails (prematureEnd addr "opcode prefix byte")
    | _ => .returns false
  if plain then return { lead with pfx := { lead.pfx with simdPrefix := .none } }
  else return { lead with pfx := { lead.pfx with lock := false, repe := false, repne := false } }

/-- A table entry, with the operand size the table is read under. -/
structure Entry where
  lead : Lead
  opcode : Opcode
  deriving DecidableEq, Repr

def Mode.bits : Mode → Nat
  | .realMode => 16
  | .protectedMode => 32
  | .longMode => 64

def lookupOpcode (mode : Mode) (lead : Lead) (b : Nat) : Outcome String Entry := do
  let wide := { lead with pfx := { lead.pfx with operandSize := mode.bits } }
  match lead.pfx.opcodeEscape, lead.pfx.simdPrefix with
  | .none, _ =>
    if b = 0x63 ∧ mode = .longMode then return ⟨lead, op2 .only64 "movsxd" ⟨.G, .v⟩ ⟨.E, .z⟩⟩
    else return ⟨lead, ← onebyteTable.index b⟩
  | .escape0F, .none => return ⟨lead, ← twobyteTable.index b⟩
  | .escape0F, .prefix66 => return ⟨wide, ← twobyte66Table.index b⟩
  | .escape0F, .prefixF2 => return ⟨lead, ← twobyteF2Table.index b⟩
  | .escape0F, .prefixF3 => return ⟨lead, ← twobyteF3Table.index b⟩
  | .escape0F3A, .none => return ⟨lead, ← threebyte3aTable.index b⟩
  | .escape0F3A, .prefix66 => return ⟨wide, ← threebyte3a66Table.index b⟩
  | .escape0F3A, .prefixF3 => .fails "Unknown instruction: Escape 0f 3a, Prefix f3"
  | .escape0F3A, .prefixF2 => return ⟨lead, ← threebyte3af2Table.index b⟩
  | .escape0F38, .none => return ⟨lead, ← threebyte38Table.index b⟩
  | .escape0F38, .prefix66 => return ⟨wide, ← threebyte3866Table.index b⟩
  | .escape0F38, .prefixF3 => return ⟨lead, ← threebyte38f3Table.index b⟩
  | .escape0F38, .prefixF2 => return ⟨lead, ← threebyte38f2Table.index b⟩
  | .xop8, .none => return ⟨lead, ← xop8Table.index b⟩
  | .xop8, simd => .fails ("Unknown instruction: XOP8 w/ Prefix " ++ simd.debug)
  | .xop9, .none => return ⟨lead, ← xop9Table.index b⟩
  | .xop9, simd => .fails ("Unknown instruction: XOP9 w/ Prefix " ++ simd.debug)
  | .xopA, .none => return ⟨lead, ← xopaTable.index b⟩
  | .xopA, simd => .fails ("Unknown instruction: XOPA w/ Prefix " ++ simd.debug)
  | .escape0F0F, _ => .panics

/-- The first half of the decoder: everything up to the entry of an opcode table. -/
def readEntry (mode : Mode) (buf : List UInt8) (addr : UInt64) : Outcome String Entry := do
  let lead ← readPrefixes mode buf 15 0 (.initial mode)
  let lead ← readEscape buf addr lead
  if lead.pfx.opcodeEscape = .escape0F0F then .fails "Unsupported instruction: 3DNow!"
  else
    let lead ← stripPrefix buf addr lead
    match buf[lead.i]? with
    | some b => lookupOpcode mode lead b.toNat
    | none => .fails (prematureEnd addr "opcode")

def selectOpcodeExt (grp opc modrm : Nat) (pfx : SimdPrefix) (mode : Mode) (vexxopPresent : Bool) :
    Outcome String Opcode :=
  let reg := (modrm &&& 0b00111000) >>> 3
  let mo := (modrm &&& 0b11000000) >>> 6
  let rm := modrm &&& 0b00000111
  let unknown : Outcome String Opcode := .fails ("Unknown instruction: Opcode group " ++ digits 16 grp ++ ", Mod " ++
    digits 16 mo ++ ", Prefix " ++ pfx.debug ++ ", Opcode: " ++ digits 16 opc)
  match grp, mo, pfx, opc with
  | 1, _, .none, 0x80 => group1Opc80.index reg
  | 1, _, .none, 0x81 => group1Opc81.index reg
  | 1, _, .none, 0x82 => group1Opc82.index reg
  | 1, _, .none, 0x83 => group1Opc83.index reg
  | 101, _, .none, 0x8f => group101Opc8f.index reg
  | 2, _, .none, 0xc0 => group2Opcc0.index reg
  | 2, _, .none, 0xc1 => group2Opcc1.index reg
  | 2, _, .none, 0xd0 => group2Opcd0.index reg
  | 2, _, .none, 0xd1 => group2Opcd1.index reg
  | 2, _, .none, 0xd2 => group2Opcd2.index reg
  | 2, _, .none, 0xd3 => group2Opcd3.index reg
  | 3, _, .none, 0xf6 => group3Opcf6.index reg
  | 3, _, .none, 0xf7 => group3Opcf7.index reg
  | 4, _, .none, 0xfe => group4Opcfe.index reg
  | 5, _, .none, 0xff => group5Opcff.index reg
  | 6, _, .none, 0x00 => group6Opc00.index reg
  | 7, 0b11, .none, 0x01 =>
    match reg, rm with
    | 0b000, 0b001 => .returns (op0 .none "vmcall")
    | 0b000, 0b010 => .returns (op0 .none "vmlaunch")
    | 0b000, 0b011 => .returns (op0 .none "vmresume")
    | 0b000, 0b100 => .returns (op0 .none "vmxoff")
    | 0b000, _ => .returns unused
    | 0b001, 0b000 => .returns (op0 .none "monitor")
    | 0b001, 0b001 => .returns (op0 .none "mwait")
    | 0b001, 0b010 => .returns (op0 .none "clac")
    | 0b001, 0b011 => .returns (op0 .none "stac")
    | 0b001, 0b111 => .returns (op0 .none "encls")
    | 0b001, _ => .returns unused
    | 0b010, 0b000 => .returns (op1 .none "xgetbv" ⟨.E, .v⟩)
    | 0b010, 0b001 => .returns (op0 .none "xsetbv")
    | 0b010, 0b100 => .returns (op0 .none "vmfunc")
    | 0b010, 0b101 => .returns (op0 .none "xend")
    | 0b010, 0b110 => .returns (op0 .none "xtest")
    | 0b010, 0b111 => .returns (op0 .none "enclu")
    | 0b010, _ => .returns unused
    | 0b011, _ => .returns unused
    | 0b100, _ => group7Opc01Mem.index reg
    | 0b101, _ => .returns unused
    | 0b110, _ => group7Opc01Mem.index reg
    | 0b111, 0b000 => .returns (op0 .none "swapgs")
    | 0b111, 0b001 => .returns (op0 .none "rdtscp")
    | 0b111, _ => .returns unused
    | _, _ => .panics
  | 7, _, .none, 0x01 => group7Opc01Mem.index reg
  | 8, _, .none, 0xba => group8Opcba.index reg
  | 9, _, .none, 0xc7 =>
    -- the cases for another mandatory prefix than the one matched here cannot apply
    match mo, reg with
    | 0b11, 0b110 => .returns (op1 .none "rdrand" ⟨.R, .v⟩)
    | 0b11, 0b111 => .returns (op1 .none "rdseed" ⟨.R, .v⟩)
    | _, 0b001 =>
      if mode = .longMode then .returns (op1 .none "cmpxch8b" ⟨.M, .q⟩)
      else .returns (op1 .none "cmpxchg16b" ⟨.M, .dq⟩)
    | _, 0b110 => .returns (op1 .none "vmptrld" ⟨.M, .q⟩)
    | _, 0b111 => .returns (op1 .none "vmptrst" ⟨.M, .q⟩)
    | _, _ => .returns unused
  | 10, _, .none, 0xb9 => group10Opcb9.index reg
  | 11, _, .none, 0xc6 =>
    if mo = 0b11 ∧ reg = 0b111 ∧ rm = 0b000 then .returns (op1 .none "xabort" ⟨.I, .b⟩) else group11Opcc6.index reg
  | 11, _, .none, 0xc7 =>
    if mo = 0b11 ∧ reg = 0b111 ∧ rm = 0b000 then .returns (op1 .none "xbegin" ⟨.I, .b⟩) else group11Opcc7.index reg
  | 12, 0b11, .none, 0x71 => group12Opc71.index reg
  | 12, 0b11, .prefix66, 0x71 => group12Opc6671.index reg
  | 13, 0b11, .none, 0x72 => group13Opc72.index reg
  | 13, 0b11, .prefix66, 0x72 => group13Opc6672.index reg
  | 14, 0b11, .none, 0x73 => group14Opc73.index reg
  | 14, 0b11, .prefix66, 0x73 => group14Opc6673.index reg
  | 15, 0b11, .none, 0xae =>
    match reg with
    | 0b101 => .returns (op0 .none "lfence")
    | 0b110 => .returns (op0 .none "mfence")
    | 0b111 => .returns (op0 .none "sfence")
    | _ => .returns unused
  | 15, 0b11, .prefixF3, 0xae =>
    match reg with
    | 0b000 => .returns (op1 .none "rdfsbase" ⟨.R, .y⟩)
    | 0b001 => .returns (op1 .none "rdgsbase" ⟨.R, .y⟩)
    | 0b010 => .returns (op1 .none "wrfsbase" ⟨.R, .y⟩)
    | 0b011 => .returns (op1 .none "wrgsbase" ⟨.R, .y⟩)
    | _ => .returns unused
  | 15, _, .none, 0xae =>
    match reg with
    | 0b000 => .returns (op0 .none "fxsave")
    | 0b001 => .returns (op0 .none "fxstor")
    | 0b010 => .returns (op0 .none "ldmxcsr")
    | 0b011 => .returns (op0 .none "stmxcsr")
    | 0b100 => .returns (op0 .none "xsave")
    | 0b101 => .returns (op0 .none "xrstor")
    | 0b110 => .returns (op0 .none "xsaveopt")
    | 0b111 => .returns (op0 .none "clflush")
    | _ => .panics
  | 16, 0b11, .none, 0x18 => .returns unused
  | 16, _, .none, 0x18 =>
    match reg with
    | 0b000 | 0b001 | 0b010 | 0b011 => .returns (op1 .none "prefetch" ⟨.M, .none⟩)
    | _ => .returns unused
  | 17, _, _, 0xf3 =>
    if vexxopPresent then
      match reg with
      | 0b001 => .returns (op2 .none "blsr" ⟨.B, .y⟩ ⟨.E, .y⟩)
      | 0b010 => .returns (op2 .none "blsmsk" ⟨.B, .y⟩ ⟨.E, .y⟩)
      | 0b011 => .returns (op2 .none "blsi" ⟨.B, .y⟩ ⟨.E, .y⟩)
      | _ => .returns unused
    else unknown
  | 102, _, .none, 0x01 => group102Opc01.index reg
  | _, _, _, _ => unknown

/-- The x87 table for a memory operand, indexed by the `reg` field. -/
def x87Memory : Nat → Outcome String OpcodeTable
  | 0xd8 => .returns x87D8Table2
  | 0xd9 => .returns x87D9Table2
  | 0xda => .returns x87DaTable2
  | 0xdb => .returns x87DbTable2
  | 0xdc => .returns x87DcTable2
  | 0xdd => .returns x87DdTable2
  | 0xde => .returns x87DeTable2
  | 0xdf => .returns x87DfTable2
  | _ => .panics

/-- The x87 table for register operands, indexed by the ModRM byte. -/
def x87Registers : Nat → Outcome String OpcodeTable
  | 0xd8 => .returns x87D8Table
  | 0xd9 => .returns x87D9Table
  | 0xda => .returns x87DaTable
  | 0xdb => .returns x87DbTable
  | 0xdc => .returns x87DcTable
  | 0xdd => .returns x87DdTable
  | 0xde => .returns x87DeTable
  | 0xdf => .returns x87DfTable
  | _ => .panics

/-- An opcode, with the position of its last byte. -/
structure Selected where
  opcode : Opcode
  i : Nat
  deriving DecidableEq, Repr

/-- Follows an entry that leaves the choice to the byte after it. -/
def resolve (mode : Mode) (buf : List UInt8) (addr : UInt64) (entry : Entry) : Outcome String Selected :=
  let i := entry.lead.i
  match entry.opcode.mnemonic with
  | .single _ => .returns ⟨entry.opcode, i⟩
  | .undefined => .fails ("Unknown instruction: undefined opcode at 0x" ++ digits 16 addr.toNat)
  | .escape =>
    match buf[i]?, buf[i + 1]? with
    | some esc, some modrm =>
      if modrm < 0xc0 then do
        let table ← x87Memory esc.toNat
        return ⟨← table.index ((modrm.toNat >>> 3) &&& 0b111), i⟩
      else do
        let table ← x87Registers esc.toNat
        return ⟨← table.index (modrm.toNat - 0xc0), i + 1⟩
    | _, _ => .fails (prematureEnd addr "opcode escape/modrm bytes")
  | .modrm grp =>
    match buf[i]?, buf[i + 1]? with
    | some opc, some modrm => do
      let simd := if entry.lead.pfx.opcodeEscape ≠ .none then entry.lead.pfx.simdPrefix else .none
      return ⟨← selectOpcodeExt grp opc.toNat modrm.toNat simd mode entry.lead.vexxopPresent, i⟩
    | _, _ => .fails (prematureEnd addr "opcode/modrm bytes")

def applyOption (mode : Mode) (opt : OpcodeOption) (operandSize : Nat) : Except String Nat :=
  match opt with
  | .default64 => .ok (if mode = .longMode ∧ operandSize = 32 then 64 else operandSize)
  | .force64 => .ok (if mode = .longMode then 64 else operandSize)
  | .only64 => if mode = .longMode then .ok operandSize else .error "Unknown instruction: Long mode only"
  | .invalid64 => if mode = .longMode then .error "Unknown instruction: Invalid in Long mode" else .ok operandSize
  | .none => .ok operandSize

def operandContext (mode : Mode) (addr : UInt64) (lead : Lead) (i operandSize : Nat) : Context where
  mode := mode
  seg := lead.pfx.segOverride
  vvvv := lead.pfx.vvvv
  rex := if lead.rexPresent then some ⟨lead.pfx.rexW, lead.pfx.rexR, lead.pfx.rexX, lead.pfx.rexB⟩ else none
  opsz := operandSize
  addrsz := lead.pfx.addressSize
  simdsz := lead.pfx.simdSize
  addr := addr + i.toUInt64 + 1

/-- Operand values, the statements that read them, and for each the statements that write it back. -/
structure Operands where
  ops : List Rvalue
  stmts : List Statement
  wstmts : List (List Statement)
  deriving DecidableEq, Repr

def Context.readOperands (c : Context) : List OperandSpec → TailReader Operands
  | [] => pure ⟨[], [], []⟩
  | spec :: rest => do
    let op ← c.readOperand spec
    let (rv, rst, wst) ← Reader.ofOutcome (toRreil op)
    let others ← c.readOperands rest
    return ⟨rv :: others.ops, rst ++ others.stmts, wst :: others.wstmts⟩

/-- Describes how control flow continues after an opcode. -/
inductive JumpSpec where
  | deadEnd
  | fallThru
  | branch (target : Rvalue) (guard : Guard)
  | jump (target : Rvalue)
  deriving DecidableEq, Repr

/-- The semantic functions by name. -/
abbrev Semantics := String → List Rvalue → Outcome String (List Statement × JumpSpec)

def Opcode.call (semantic : Semantics) (opc : Opcode) (ops : List Rvalue) : Outcome String (List Statement × JumpSpec) :=
  match opc, ops with
  | .nonary _ _ f, _ => semantic f []
  | .unary _ _ f _, a :: _ => semantic f [a]
  | .unary .., _ => .fails "Internal error. Called 1-ary function with 0 arguments"
  | .binary _ _ f _ _, a :: b :: _ => semantic f [a, b]
  | .binary .., _ => .fails "Internal error. Called 2-ary function less than 2 arguments"
  | .trinary _ _ f _ _ _, a :: b :: c :: _ => semantic f [a, b, c]
  | .trinary .., _ => .fails "Internal error. Called 3-ary function less than 3 arguments"
  | .quaternary _ _ f _ _ _ _, a :: b :: c :: d :: _ => semantic f [a, b, c, d]
  | .quaternary .., _ => .fails "Internal error. Called 4-ary function less than 4 arguments"

/-- How the operands are printed: one of these targets is code, the others are numbers
separated by commas. -/
def operandFormat (name : String) (count : Nat) : Outcome String (List MnemonicFormatToken) :=
  let number : MnemonicFormatToken := .var false
  let comma : List MnemonicFormatToken := [.literal ',', .literal ' ']
  match count with
  | 0 => .returns []
  | 1 => .returns [if name ∈ ["call", "jmp", "je", "jne"] then .pointer true "text" else number]
  | 2 => .returns ([number] ++ comma ++ [number])
  | 3 => .returns ([number] ++ comma ++ [number] ++ comma ++ [number])
  | 4 => .returns ([number] ++ comma ++ [number] ++ comma ++ [number] ++ comma ++ [number])
  | _ => .panics

def JumpSpec.next (spec : JumpSpec) (fallThru : UInt64) : List (Rvalue × Guard) :=
  match spec with
  | .deadEnd => []
  | .fallThru => [(.constant fallThru 64, .always)]
  | .jump target => [(target, .always)]
  | .branch target guard => [(.constant fallThru 64, guard.negation), (target, guard)]

/-- The second half of the decoder: the operands of the opcode whose last byte is at `i`, and the mnemonic. -/
def readInstruction (semantic : Semantics) (c : Context) (name : String) (selected : Selected) (buf : List UInt8)
    (addr : UInt64) : Outcome String (UInt64 × Mnemonic × List (Rvalue × Guard)) := do
  let start := selected.i + 1
  let (operands, tail) ←
    if start ≤ buf.length then c.readOperands selected.opcode.operands (buf.drop start) ⟨0, none, none⟩ else .panics
  let (opStmts, jmpSpec) ← selected.opcode.call semantic operands.ops
  let written := if 2 ≤ operands.ops.length then operands.wstmts.headD [] else []
  let len := (tail.position + start).toUInt64
  let format ← operandFormat name operands.ops.length
  let mne : Mnemonic := {
    area := ⟨addr, addr + len⟩
    opcode := name
    operands := operands.ops
    instructions := operands.stmts ++ opStmts ++ written
    formatString := format }
  return (len, mne, jmpSpec.next (addr + len))

def read (semantic : Semantics) (mode : Mode) (buf : List UInt8) (addr : UInt64) :
    Outcome String (UInt64 × Mnemonic × List (Rvalue × Guard)) := do
  let entry ← readEntry mode buf addr
  let selected ← resolve mode buf addr entry
  let operandSize ← .ofExcept (applyOption mode selected.opcode.option entry.lead.pfx.operandSize)
  match selected.opcode.mnemonic with
  | .single name =>
    readInstruction semantic (operandContext mode addr entry.lead selected.i operandSize) name selected buf addr
  | spec => .fails ("Internal error: " ++ spec.debug)

end Panopticon.Amd64
