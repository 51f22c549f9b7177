import Panopticon.Amd64.Operand

/-! The opcode tables, indexed by the byte after the prefixes and escapes. An entry that
a table does not list is unused. -/

namespace Panopticon.Amd64
open Panopticon.Library

inductive OpcodeOption where
  | none
  | default64
  | force64
  | only64
  | invalid64
  deriving DecidableEq, Repr

inductive MnemonicSpec where
  | undefined
  | escape
  | single (name : String)
  | modrm (group : Nat)
  deriving DecidableEq, Repr

def MnemonicSpec.debug : MnemonicSpec → String
  | .undefined => "Undefined"
  | .escape => "Escape"
  | .single name => "Single(\"" ++ name ++ "\")"
  | .modrm group => "ModRM(" ++ digits 10 group ++ ")"

/-- An opcode with as many operands as its semantic function, which goes by its name, takes. -/
inductive Opcode where
  | nonary (mnemonic : MnemonicSpec) (option : OpcodeOption) (semantic : String)
  | unary (mnemonic : MnemonicSpec) (option : OpcodeOption) (semantic : String) (a : OperandSpec)
  | binary (mnemonic : MnemonicSpec) (option : OpcodeOption) (semantic : String) (a b : OperandSpec)
  | trinary (mnemonic : MnemonicSpec) (option : OpcodeOption) (semantic : String) (a b c : OperandSpec)
  | quaternary (mnemonic : MnemonicSpec) (option : OpcodeOption) (semantic : String) (a b c d : OperandSpec)
  deriving DecidableEq, Repr

namespace Opcode

def operands : Opcode → List OperandSpec
  | .nonary .. => []
  | .unary _ _ _ a => [a]
  | .binary _ _ _ a b => [a, b]
  | .trinary _ _ _ a b c => [a, b, c]
  | .quaternary _ _ _ a b c d => [a, b, c, d]

def mnemonic : Opcode → MnemonicSpec
  | .nonary mne .. | .unary mne .. | .binary mne .. | .trinary mne .. | .quaternary mne .. => mne

def option : Opcode → OpcodeOption
  | .nonary _ opt _ | .unary _ opt .. | .binary _ opt .. | .trinary _ opt .. | .quaternary _ opt .. => opt

end Opcode

-- most entries are printed under the name of their semantic function
def op0 (opt : OpcodeOption) (mne : String) : Opcode := .nonary (.single mne) opt mne
def op1 (opt : OpcodeOption) (mne : String) (a : OperandSpec) : Opcode := .unary (.single mne) opt mne a
def op2 (opt : OpcodeOption) (mne : String) (a b : OperandSpec) : Opcode := .binary (.single mne) opt mne a b
def op3 (opt : OpcodeOption) (mne : String) (a b c : OperandSpec) : Opcode := .trinary (.single mne) opt mne a b c
def op4 (opt : OpcodeOption) (mne : String) (a b c d : OperandSpec) : Opcode :=
  .quaternary (.single mne) opt mne a b c d
def named1 (mne sem : String) (a : OperandSpec) : Opcode := .unary (.single mne) .none sem a
def named2 (mne sem : String) (a b : OperandSpec) : Opcode := .binary (.single mne) .none sem a b
def named3 (mne sem : String) (a b c : OperandSpec) : Opcode := .trinary (.single mne) .none sem a b c
def group0 (grp : Nat) : Opcode := .nonary (.modrm grp) .none "noop"
def group1 (grp : Nat) (a : OperandSpec) : Opcode := .unary (.modrm grp) .none "noop_unary" a
def group2 (grp : Nat) (a b : OperandSpec) : Opcode := .binary (.modrm grp) .none "noop_binary" a b
def unused : Opcode := .nonary .undefined .none "noop"
def escape : Opcode := .nonary .escape .none "noop"

structure OpcodeTable where
  size : Nat
  entries : List (Nat × Opcode)

def OpcodeTable.index (table : OpcodeTable) (i : Nat) : Outcome String Opcode :=
  if i < table.size then .returns ((table.entries.lookup i).getD unused) else .panics

def onebyteTable : OpcodeTable where
  size := 256
  entries := [(0x00, op2 .none "add" ⟨.E, .b⟩ ⟨.G, .b⟩), (0x01, op2 .none "add" ⟨.E, .v⟩ ⟨.G, .v⟩),
    (0x02, op2 .none "add" ⟨.G, .b⟩ ⟨.E, .b⟩), (0x03, op2 .none "add" ⟨.G, .v⟩ ⟨.E, .v⟩),
    (0x04, op2 .none "add" ⟨.none, .AL⟩ ⟨.I, .b⟩), (0x05, op2 .none "add" ⟨.none, .rAX⟩ ⟨.I, .z⟩),
    (0x06, op1 .invalid64 "push" ⟨.none, .ES⟩), (0x07, op1 .invalid64 "pop" ⟨.none, .ES⟩),
    (0x08, op2 .none "or" ⟨.E, .b⟩ ⟨.G, .b⟩), (0x09, op2 .none "or" ⟨.E, .v⟩ ⟨.G, .v⟩),
    (0x0a, op2 .none "or" ⟨.G, .b⟩ ⟨.E, .b⟩), (0x0b, op2 .none "or" ⟨.G, .v⟩ ⟨.E, .v⟩),
    (0x0c, op2 .none "or" ⟨.none, .AL⟩ ⟨.I, .b⟩), (0x0d, op2 .none "or" ⟨.none, .rAX⟩ ⟨.I, .z⟩),
    (0x0e, op1 .invalid64 "push" ⟨.none, .CS⟩), (0x10, op2 .none "adc" ⟨.E, .b⟩ ⟨.G, .b⟩),
    (0x11, op2 .none "adc" ⟨.E, .v⟩ ⟨.G, .v⟩), (0x12, op2 .none "adc" ⟨.G, .b⟩ ⟨.E, .b⟩),
    (0x13, op2 .none "adc" ⟨.G, .v⟩ ⟨.E, .v⟩), (0x14, op2 .none "adc" ⟨.none, .AL⟩ ⟨.I, .b⟩),
    (0x15, op2 .none "adc" ⟨.none, .rAX⟩ ⟨.I, .z⟩), (0x16, op1 .invalid64 "push" ⟨.none, .SS⟩),
    (0x17, op1 .invalid64 "pop" ⟨.none, .SS⟩), (0x18, op2 .none "sbb" ⟨.E, .b⟩ ⟨.G, .b⟩),
    (0x19, op2 .none "sbb" ⟨.E, .v⟩ ⟨.G, .v⟩), (0x1a, op2 .none "sbb" ⟨.G, .b⟩ ⟨.E, .b⟩),
    (0x1b, op2 .none "sbb" ⟨.G, .v⟩ ⟨.E, .v⟩), (0x1c, op2 .none "sbb" ⟨.none, .AL⟩ ⟨.I, .b⟩),
    (0x1d, op2 .none "sbb" ⟨.none, .rAX⟩ ⟨.I, .z⟩), (0x1e, op1 .invalid64 "push" ⟨.none, .DS⟩),
    (0x1f, op1 .invalid64 "pop" ⟨.none, .DS⟩), (0x20, op2 .none "and" ⟨.E, .b⟩ ⟨.G, .b⟩),
    (0x21, op2 .none "and" ⟨.E, .v⟩ ⟨.G, .v⟩), (0x22, op2 .none "and" ⟨.G, .b⟩ ⟨.E, .b⟩),
    (0x23, op2 .none "and" ⟨.G, .v⟩ ⟨.E, .v⟩), (0x24, op2 .none "and" ⟨.none, .AL⟩ ⟨.I, .b⟩),
    (0x25, op2 .none "and" ⟨.none, .rAX⟩ ⟨.I, .z⟩), (0x27, op0 .invalid64 "daa"),
    (0x28, op2 .none "sub" ⟨.E, .b⟩ ⟨.G, .b⟩), (0x29, op2 .none "sub" ⟨.E, .v⟩ ⟨.G, .v⟩),
    (0x2a, op2 .none "sub" ⟨.G, .b⟩ ⟨.E, .b⟩), (0x2b, op2 .none "sub" ⟨.G, .v⟩ ⟨.E, .v⟩),
    (0x2c, op2 .none "sub" ⟨.none, .AL⟩ ⟨.I, .b⟩), (0x2d, op2 .none "sub" ⟨.none, .rAX⟩ ⟨.I, .z⟩),
    (0x2f, op0 .invalid64 "das"), (0x30, op2 .none "xor" ⟨.E, .b⟩ ⟨.G, .b⟩),
    (0x31, op2 .none "xor" ⟨.E, .v⟩ ⟨.G, .v⟩), (0x32, op2 .none "xor" ⟨.G, .b⟩ ⟨.E, .b⟩),
    (0x33, op2 .none "xor" ⟨.G, .v⟩ ⟨.E, .v⟩), (0x34, op2 .none "xor" ⟨.none, .AL⟩ ⟨.I, .b⟩),
    (0x35, op2 .none "xor" ⟨.none, .rAX⟩ ⟨.I, .z⟩), (0x37, op0 .invalid64 "aaa"),
    (0x38, op2 .none "cmp" ⟨.E, .b⟩ ⟨.G, .b⟩), (0x39, op2 .none "cmp" ⟨.E, .v⟩ ⟨.G, .v⟩),
    (0x3a, op2 .none "cmp" ⟨.G, .b⟩ ⟨.E, .b⟩), (0x3b, op2 .none "cmp" ⟨.G, .v⟩ ⟨.E, .v⟩),
    (0x3c, op2 .none "cmp" ⟨.none, .AL⟩ ⟨.I, .b⟩), (0x3d, op2 .none "cmp" ⟨.none, .rAX⟩ ⟨.I, .z⟩),
    (0x3f, op0 .invalid64 "aas"), (0x40, op1 .invalid64 "inc" ⟨.none, .eAX⟩),
    (0x41, op1 .invalid64 "inc" ⟨.none, .eCX⟩), (0x42, op1 .invalid64 "inc" ⟨.none, .eDX⟩),
    (0x43, op1 .invalid64 "inc" ⟨.none, .eBX⟩), (0x44, op1 .invalid64 "inc" ⟨.none, .eSP⟩),
    (0x45, op1 .invalid64 "inc" ⟨.none, .eBP⟩), (0x46, op1 .invalid64 "inc" ⟨.none, .eSI⟩),
    (0x47, op1 .invalid64 "inc" ⟨.none, .eDI⟩), (0x48, op1 .invalid64 "dec" ⟨.none, .eAX⟩),
    (0x49, op1 .invalid64 "dec" ⟨.none, .eCX⟩), (0x4a, op1 .invalid64 "dec" ⟨.none, .eDX⟩),
    (0x4b, op1 .invalid64 "dec" ⟨.none, .eBX⟩), (0x4c, op1 .invalid64 "dec" ⟨.none, .eSP⟩),
    (0x4d, op1 .invalid64 "dec" ⟨.none, .eBP⟩), (0x4e, op1 .invalid64 "dec" ⟨.none, .eSI⟩),
    (0x4f, op1 .invalid64 "dec" ⟨.none, .eDI⟩), (0x50, op1 .default64 "push" ⟨.none, .rAXr8⟩),
    (0x51, op1 .default64 "push" ⟨.none, .rCXr9⟩), (0x52, op1 .default64 "push" ⟨.none, .rDXr10⟩),
    (0x53, op1 .default64 "push" ⟨.none, .rBXr11⟩), (0x54, op1 .default64 "push" ⟨.none, .rSPr12⟩),
    (0x55, op1 .default64 "push" ⟨.none, .rBPr13⟩), (0x56, op1 .default64 "push" ⟨.none, .rSIr14⟩),
    (0x57, op1 .default64 "push" ⟨.none, .rDIr15⟩), (0x58, op1 .default64 "pop" ⟨.none, .rAXr8⟩),
    (0x59, op1 .default64 "pop" ⟨.none, .rCXr9⟩), (0x5a, op1 .default64 "pop" ⟨.none, .rDXr10⟩),
    (0x5b, op1 .default64 "pop" ⟨.none, .rBXr11⟩), (0x5c, op1 .default64 "pop" ⟨.none, .rSPr12⟩),
    (0x5d, op1 .default64 "pop" ⟨.none, .rBPr13⟩), (0x5e, op1 .default64 "pop" ⟨.none, .rSIr14⟩),
    (0x5f, op1 .default64 "pop" ⟨.none, .rDIr15⟩), (0x60, op0 .invalid64 "pusha"), (0x61, op0 .invalid64 "popa"),
    (0x62, op2 .invalid64 "bound" ⟨.G, .v⟩ ⟨.M, .a⟩), (0x63, op2 .invalid64 "arpl" ⟨.E, .w⟩ ⟨.G, .w⟩),
    (0x68, op1 .default64 "push" ⟨.I, .z⟩), (0x69, named3 "imul" "imul3" ⟨.G, .v⟩ ⟨.E, .v⟩ ⟨.I, .z⟩),
    (0x6a, op1 .default64 "push" ⟨.I, .b⟩), (0x6b, named3 "imul" "imul3" ⟨.G, .v⟩ ⟨.E, .v⟩ ⟨.I, .b⟩),
    (0x6c, op0 .none "insb"), (0x6d, op0 .none "insw"), (0x6e, op0 .none "outsb"), (0x6f, op0 .none "outsw"),
    (0x70, op1 .force64 "jo" ⟨.J, .b⟩), (0x71, op1 .force64 "jno" ⟨.J, .b⟩), (0x72, op1 .force64 "jb" ⟨.J, .b⟩),
    (0x73, op1 .force64 "jae" ⟨.J, .b⟩), (0x74, op1 .force64 "je" ⟨.J, .b⟩), (0x75, op1 .force64 "jne" ⟨.J, .b⟩),
    (0x76, op1 .force64 "jbe" ⟨.J, .b⟩), (0x77, op1 .force64 "ja" ⟨.J, .b⟩), (0x78, op1 .force64 "js" ⟨.J, .b⟩),
    (0x79, op1 .force64 "jns" ⟨.J, .b⟩), (0x7a, op1 .force64 "jp" ⟨.J, .b⟩), (0x7b, op1 .force64 "jnp" ⟨.J, .b⟩),
    (0x7c, op1 .force64 "jl" ⟨.J, .b⟩), (0x7d, op1 .force64 "jge" ⟨.J, .b⟩), (0x7e, op1 .force64 "jle" ⟨.J, .b⟩),
    (0x7f, op1 .force64 "jg" ⟨.J, .b⟩), (0x80, group2 1 ⟨.E, .b⟩ ⟨.I, .b⟩), (0x81, group2 1 ⟨.E, .v⟩ ⟨.I, .z⟩),
    (0x82, group2 1 ⟨.E, .b⟩ ⟨.I, .b⟩), (0x83, group2 1 ⟨.E, .v⟩ ⟨.I, .b⟩),
    (0x84, op2 .none "test" ⟨.E, .b⟩ ⟨.G, .b⟩), (0x85, op2 .none "test" ⟨.E, .v⟩ ⟨.G, .v⟩),
    (0x86, op2 .none "xchg" ⟨.E, .b⟩ ⟨.G, .b⟩), (0x87, op2 .none "xchg" ⟨.E, .v⟩ ⟨.G, .v⟩),
    (0x88, op2 .none "mov" ⟨.E, .b⟩ ⟨.G, .b⟩), (0x89, op2 .none "mov" ⟨.E, .v⟩ ⟨.G, .v⟩),
    (0x8a, op2 .none "mov" ⟨.G, .b⟩ ⟨.E, .b⟩), (0x8b, op2 .none "mov" ⟨.G, .v⟩ ⟨.E, .v⟩),
    (0x8c, op2 .none "mov" ⟨.E, .v⟩ ⟨.S, .w⟩), (0x8d, op2 .none "lea" ⟨.G, .v⟩ ⟨.M, .none⟩),
    (0x8e, op2 .none "mov" ⟨.S, .w⟩ ⟨.E, .w⟩), (0x8f, group1 101 ⟨.E, .v⟩),
    (0x90, op2 .none "xchg" ⟨.none, .rAXr8⟩ ⟨.none, .rAX⟩),
    (0x91, op2 .none "xchg" ⟨.none, .rCXr9⟩ ⟨.none, .rAX⟩),
    (0x92, op2 .none "xchg" ⟨.none, .rDXr10⟩ ⟨.none, .rAX⟩),
    (0x93, op2 .none "xchg" ⟨.none, .rBXr11⟩ ⟨.none, .rAX⟩),
    (0x94, op2 .none "xchg" ⟨.none, .rSPr12⟩ ⟨.none, .rAX⟩),
    (0x95, op2 .none "xchg" ⟨.none, .rBPr13⟩ ⟨.none, .rAX⟩),
    (0x96, op2 .none "xchg" ⟨.none, .rSIr14⟩ ⟨.none, .rAX⟩),
    (0x97, op2 .none "xchg" ⟨.none, .rDIr15⟩ ⟨.none, .rAX⟩), (0x98, op0 .none "cbw"), (0x99, op0 .none "cwd"),
    (0x9a, op1 .invalid64 "call" ⟨.A, .v⟩), (0x9b, op0 .none "wait"), (0x9c, op0 .default64 "pushfw"),
    (0x9d, op0 .default64 "popfw"), (0x9e, op0 .none "sahf"), (0x9f, op0 .none "lahf"),
    (0xa0, op2 .none "mov" ⟨.none, .AL⟩ ⟨.O, .b⟩), (0xa1, op2 .none "mov" ⟨.none, .rAX⟩ ⟨.O, .v⟩),
    (0xa2, op2 .none "mov" ⟨.O, .b⟩ ⟨.none, .AL⟩), (0xa3, op2 .none "mov" ⟨.O, .v⟩ ⟨.none, .rAX⟩),
    (0xa4, op0 .none "movsb"), (0xa5, op0 .none "movsw"), (0xa6, op0 .none "cmpsb"), (0xa7, op0 .none "cmpsw"),
    (0xa8, op2 .none "test" ⟨.none, .AL⟩ ⟨.I, .b⟩), (0xa9, op2 .none "test" ⟨.none, .rAX⟩ ⟨.I, .z⟩),
    (0xaa, op0 .none "stosb"), (0xab, op0 .none "stosw"), (0xac, op0 .none "lodsb"), (0xad, op0 .none "lodsw"),
    (0xae, op0 .none "scasb"), (0xaf, op0 .none "scasw"), (0xb0, op2 .none "mov" ⟨.none, .ALR8B⟩ ⟨.I, .b⟩),
    (0xb1, op2 .none "mov" ⟨.none, .CLR9B⟩ ⟨.I, .b⟩), (0xb2, op2 .none "mov" ⟨.none, .DLR10B⟩ ⟨.I, .b⟩),
    (0xb3, op2 .none "mov" ⟨.none, .BLR11B⟩ ⟨.I, .b⟩), (0xb4, op2 .none "mov" ⟨.none, .AHR12B⟩ ⟨.I, .b⟩),
    (0xb5, op2 .none "mov" ⟨.none, .CHR13B⟩ ⟨.I, .b⟩), (0xb6, op2 .none "mov" ⟨.none, .DHR14B⟩ ⟨.I, .b⟩),
    (0xb7, op2 .none "mov" ⟨.none, .BHR15B⟩ ⟨.I, .b⟩), (0xb8, op2 .none "mov" ⟨.none, .rAXr8⟩ ⟨.I, .v⟩),
    (0xb9, op2 .none "mov" ⟨.none, .rCXr9⟩ ⟨.I, .v⟩), (0xba, op2 .none "mov" ⟨.none, .rDXr10⟩ ⟨.I, .v⟩),
    (0xbb, op2 .none "mov" ⟨.none, .rBXr11⟩ ⟨.I, .v⟩), (0xbc, op2 .none "mov" ⟨.none, .rSPr12⟩ ⟨.I, .v⟩),
    (0xbd, op2 .none "mov" ⟨.none, .rBPr13⟩ ⟨.I, .v⟩), (0xbe, op2 .none "mov" ⟨.none, .rSIr14⟩ ⟨.I, .v⟩),
    (0xbf, op2 .none "mov" ⟨.none, .rDIr15⟩ ⟨.I, .v⟩), (0xc0, group2 2 ⟨.E, .b⟩ ⟨.I, .b⟩),
    (0xc1, group2 2 ⟨.E, .v⟩ ⟨.I, .b⟩), (0xc2, op1 .force64 "retn" ⟨.I, .w⟩), (0xc3, op0 .force64 "ret"),
    (0xc4, op2 .invalid64 "les" ⟨.G, .z⟩ ⟨.M, .p⟩), (0xc5, op2 .invalid64 "lds" ⟨.G, .z⟩ ⟨.M, .p⟩),
    (0xc6, group2 11 ⟨.E, .b⟩ ⟨.I, .b⟩), (0xc7, group2 11 ⟨.E, .v⟩ ⟨.I, .z⟩),
    (0xc8, op2 .none "enter" ⟨.I, .w⟩ ⟨.I, .b⟩), (0xc9, op0 .default64 "leave"),
    (0xca, op1 .none "retnf" ⟨.I, .w⟩), (0xcb, op0 .none "retf"), (0xcc, op0 .none "int3"),
    (0xcd, op1 .none "int" ⟨.I, .b⟩), (0xce, op0 .invalid64 "into"), (0xcf, op0 .none "iretw"),
    (0xd0, group2 2 ⟨.E, .b⟩ ⟨.I, .one⟩), (0xd1, group2 2 ⟨.E, .v⟩ ⟨.I, .one⟩),
    (0xd2, group2 2 ⟨.E, .b⟩ ⟨.none, .CL⟩), (0xd3, group2 2 ⟨.E, .v⟩ ⟨.none, .CL⟩),
    (0xd4, op1 .invalid64 "aam" ⟨.I, .b⟩), (0xd5, op1 .invalid64 "aad" ⟨.I, .b⟩), (0xd6, op0 .none "salc"),
    (0xd7, op0 .none "xlatb"), (0xd8, escape), (0xd9, escape), (0xda, escape), (0xdb, escape), (0xdc, escape),
    (0xdd, escape), (0xde, escape), (0xdf, escape), (0xe0, op1 .force64 "loopne" ⟨.J, .b⟩),
    (0xe1, op1 .force64 "loope" ⟨.J, .b⟩), (0xe2, .unary (.single "loop") .force64 "loop_" ⟨.J, .b⟩),
    (0xe3, op1 .force64 "jcxz" ⟨.J, .b⟩), (0xe4, .binary (.single "in") .none "in_" ⟨.none, .AL⟩ ⟨.I, .b⟩),
    (0xe5, .binary (.single "in") .none "in_" ⟨.none, .eAX⟩ ⟨.I, .b⟩),
    (0xe6, op2 .none "out" ⟨.I, .b⟩ ⟨.none, .AL⟩), (0xe7, op2 .none "out" ⟨.I, .b⟩ ⟨.none, .eAX⟩),
    (0xe8, op1 .force64 "call" ⟨.J, .z⟩), (0xe9, op1 .force64 "jmp" ⟨.J, .z⟩),
    (0xea, op1 .force64 "jmp" ⟨.A, .p⟩), (0xeb, op1 .force64 "jmp" ⟨.J, .b⟩),
    (0xec, .binary (.single "in") .none "in_" ⟨.none, .AL⟩ ⟨.none, .DX⟩),
    (0xed, .binary (.single "in") .none "in_" ⟨.none, .eAX⟩ ⟨.none, .DX⟩),
    (0xee, op2 .none "out" ⟨.none, .DX⟩ ⟨.none, .AL⟩), (0xef, op2 .none "out" ⟨.none, .DX⟩ ⟨.none, .eAX⟩),
    (0xf0, op0 .none "lock"), (0xf1, op0 .none "int1"), (0xf2, op0 .none "repne"), (0xf3, op0 .none "rep"),
    (0xf4, op0 .none "hlt"), (0xf5, op0 .none "cmc"), (0xf6, group1 3 ⟨.E, .b⟩), (0xf7, group1 3 ⟨.E, .v⟩),
    (0xf8, op0 .none "clc"), (0xf9, op0 .none "stc"), (0xfa, op0 .none "cli"), (0xfb, op0 .none "sti"),
    (0xfc, op0 .none "cld"), (0xfd, op0 .none "std"), (0xfe, group1 4 ⟨.E, .b⟩), (0xff, group1 5 ⟨.E, .v⟩)]

def twobyteTable : OpcodeTable where
  size := 256
  entries := [(0x00, group0 6), (0x01, group0 7), (0x02, op2 .none "lar" ⟨.G, .v⟩ ⟨.E, .w⟩),
    (0x03, op2 .none "lsl" ⟨.G, .v⟩ ⟨.E, .w⟩), (0x05, op0 .only64 "syscall"), (0x06, op0 .none "clts"),
    (0x07, op0 .only64 "sysret"), (0x08, op0 .none "invd"), (0x09, op0 .none "wbinvd"), (0x0b, op0 .none "ud2"),
    (0x0d, op1 .none "prefetch" ⟨.E, .v⟩), (0x10, op2 .none "movups" ⟨.V, .ps⟩ ⟨.W, .ps⟩),
    (0x11, op2 .none "movups" ⟨.W, .ps⟩ ⟨.V, .ps⟩), (0x12, op3 .none "vmovlps" ⟨.V, .q⟩ ⟨.H, .q⟩ ⟨.M, .q⟩),
    (0x13, op2 .none "movlps" ⟨.M, .q⟩ ⟨.V, .q⟩), (0x14, op3 .none "vunpcklps" ⟨.V, .x⟩ ⟨.H, .x⟩ ⟨.W, .x⟩),
    (0x15, op3 .none "vunpckhps" ⟨.V, .x⟩ ⟨.H, .x⟩ ⟨.W, .x⟩),
    (0x16, op3 .none "vmovhps" ⟨.V, .dq⟩ ⟨.H, .q⟩ ⟨.M, .q⟩), (0x17, op2 .none "movhps" ⟨.M, .q⟩ ⟨.V, .q⟩),
    (0x18, group0 16), (0x1f, op1 .none "nop" ⟨.E, .v⟩), (0x20, op2 .none "mov" ⟨.R, .d⟩ ⟨.C, .d⟩),
    (0x21, op2 .none "mov" ⟨.R, .d⟩ ⟨.D, .d⟩), (0x22, op2 .none "mov" ⟨.C, .d⟩ ⟨.R, .d⟩),
    (0x23, op2 .none "mov" ⟨.D, .d⟩ ⟨.R, .d⟩), (0x28, op2 .none "movaps" ⟨.V, .ps⟩ ⟨.W, .ps⟩),
    (0x29, op2 .none "movaps" ⟨.W, .ps⟩ ⟨.V, .ps⟩), (0x2a, op2 .none "cvtpi2ps" ⟨.V, .ps⟩ ⟨.Q, .pi⟩),
    (0x2b, op2 .none "movntps" ⟨.M, .ps⟩ ⟨.V, .ps⟩), (0x2c, op2 .none "cvttps2pi" ⟨.P, .pi⟩ ⟨.W, .ps⟩),
    (0x2d, op2 .none "cvtps2pi" ⟨.P, .ps⟩ ⟨.W, .ps⟩), (0x2e, op2 .none "ucomiss" ⟨.V, .ss⟩ ⟨.W, .ss⟩),
    (0x2f, op2 .none "comiss" ⟨.V, .ss⟩ ⟨.W, .ss⟩), (0x30, op0 .none "wrmsr"), (0x31, op0 .none "rdtsc"),
    (0x32, op0 .none "rdmsr"), (0x33, op0 .none "rdpmc"), (0x34, op0 .none "sysenter"),
    (0x35, op0 .none "sysexit"), (0x37, op0 .none "getsec"), (0x40, op2 .none "cmovo" ⟨.G, .v⟩ ⟨.E, .v⟩),
    (0x41, op2 .none "cmovno" ⟨.G, .v⟩ ⟨.E, .v⟩), (0x42, op2 .none "cmovb" ⟨.G, .v⟩ ⟨.E, .v⟩),
    (0x43, op2 .none "cmovae" ⟨.G, .v⟩ ⟨.E, .v⟩), (0x44, op2 .none "cmovz" ⟨.G, .v⟩ ⟨.E, .v⟩),
    (0x45, op2 .none "cmovnz" ⟨.G, .v⟩ ⟨.E, .v⟩), (0x46, op2 .none "cmovbe" ⟨.G, .v⟩ ⟨.E, .v⟩),
    (0x47, op2 .none "cmova" ⟨.G, .v⟩ ⟨.E, .v⟩), (0x48, op2 .none "cmovs" ⟨.G, .v⟩ ⟨.E, .v⟩),
    (0x49, op2 .none "cmovns" ⟨.G, .v⟩ ⟨.E, .v⟩), (0x4a, op2 .none "cmovp" ⟨.G, .v⟩ ⟨.E, .v⟩),
    (0x4b, op2 .none "cmovnp" ⟨.G, .v⟩ ⟨.E, .v⟩), (0x4c, op2 .none "cmovl" ⟨.G, .v⟩ ⟨.E, .v⟩),
    (0x4d, op2 .none "cmovge" ⟨.G, .v⟩ ⟨.E, .v⟩), (0x4e, op2 .none "cmovle" ⟨.G, .v⟩ ⟨.E, .v⟩),
    (0x4f, op2 .none "cmovg" ⟨.G, .v⟩ ⟨.E, .v⟩), (0x50, op2 .none "movmskps" ⟨.G, .y⟩ ⟨.U, .ps⟩),
    (0x51, op2 .none "sqrtps" ⟨.V, .ps⟩ ⟨.W, .ps⟩), (0x52, op2 .none "rsqrtps" ⟨.V, .ps⟩ ⟨.W, .ps⟩),
    (0x53, op2 .none "rcpps" ⟨.V, .ps⟩ ⟨.W, .ps⟩), (0x54, op3 .none "vandps" ⟨.V, .ps⟩ ⟨.H, .ps⟩ ⟨.W, .ps⟩),
    (0x55, op3 .none "vandnps" ⟨.V, .ps⟩ ⟨.H, .ps⟩ ⟨.W, .ps⟩),
    (0x56, op3 .none "vorps" ⟨.V, .ps⟩ ⟨.H, .ps⟩ ⟨.W, .ps⟩),
    (0x57, op3 .none "vxorps" ⟨.V, .ps⟩ ⟨.H, .ps⟩ ⟨.W, .ps⟩),
    (0x58, op3 .none "vaddps" ⟨.V, .ps⟩ ⟨.H, .ps⟩ ⟨.W, .ps⟩),
    (0x59, op3 .none "vmulps" ⟨.V, .ps⟩ ⟨.H, .ps⟩ ⟨.W, .ps⟩), (0x5a, op2 .none "cvtps2pd" ⟨.V, .pd⟩ ⟨.W, .ps⟩),
    (0x5b, op2 .none "cvtdq2ps" ⟨.V, .ps⟩ ⟨.W, .dq⟩), (0x5c, op3 .none "vsubps" ⟨.V, .ps⟩ ⟨.H, .ps⟩ ⟨.W, .ps⟩),
    (0x5d, op3 .none "vminps" ⟨.V, .ps⟩ ⟨.H, .ps⟩ ⟨.W, .ps⟩),
    (0x5e, op3 .none "vdivps" ⟨.V, .ps⟩ ⟨.H, .ps⟩ ⟨.W, .ps⟩),
    (0x5f, op3 .none "vmaxps" ⟨.V, .ps⟩ ⟨.H, .ps⟩ ⟨.W, .ps⟩), (0x60, op2 .none "punpcklbw" ⟨.P, .q⟩ ⟨.Q, .d⟩),
    (0x61, op2 .none "punpcklwd" ⟨.P, .q⟩ ⟨.Q, .d⟩), (0x62, op2 .none "punpckldq" ⟨.P, .q⟩ ⟨.Q, .d⟩),
    (0x63, op2 .none "packsswb" ⟨.P, .q⟩ ⟨.Q, .q⟩), (0x64, op2 .none "pcmpgtb" ⟨.P, .q⟩ ⟨.Q, .q⟩),
    (0x65, op2 .none "pcmpgtw" ⟨.P, .q⟩ ⟨.Q, .q⟩), (0x66, op2 .none "pcmpgtd" ⟨.P, .q⟩ ⟨.Q, .q⟩),
    (0x67, op2 .none "packuswb" ⟨.P, .q⟩ ⟨.Q, .q⟩), (0x68, op2 .none "punpckhbw" ⟨.P, .d⟩ ⟨.Q, .q⟩),
    (0x69, op2 .none "punpckhwd" ⟨.P, .d⟩ ⟨.Q, .q⟩), (0x6a, op2 .none "punpckhdq" ⟨.P, .d⟩ ⟨.Q, .q⟩),
    (0x6b, op2 .none "packssdw" ⟨.P, .d⟩ ⟨.Q, .q⟩), (0x6e, op2 .none "movd" ⟨.P, .d⟩ ⟨.E, .y⟩),
    (0x6f, op2 .none "movq" ⟨.P, .q⟩ ⟨.Q, .q⟩), (0x70, op3 .none "vpshufw" ⟨.P, .q⟩ ⟨.Q, .q⟩ ⟨.I, .b⟩),
    (0x71, group0 12), (0x72, group0 13), (0x73, group0 14), (0x74, op2 .none "pcmpeqb" ⟨.P, .q⟩ ⟨.Q, .q⟩),
    (0x75, op2 .none "pcmpeqw" ⟨.P, .q⟩ ⟨.Q, .q⟩), (0x76, op2 .none "pcmpeqd" ⟨.P, .q⟩ ⟨.Q, .q⟩),
    (0x77, op0 .none "emms"), (0x78, op2 .none "vmread" ⟨.E, .y⟩ ⟨.G, .y⟩),
    (0x79, op2 .none "vmwrite" ⟨.G, .y⟩ ⟨.E, .y⟩), (0x7e, op2 .none "movd" ⟨.E, .y⟩ ⟨.P, .d⟩),
    (0x7f, op2 .none "movq" ⟨.Q, .q⟩ ⟨.P, .q⟩), (0x80, op1 .force64 "jo" ⟨.J, .z⟩),
    (0x81, op1 .force64 "jno" ⟨.J, .z⟩), (0x82, op1 .force64 "jb" ⟨.J, .z⟩), (0x83, op1 .force64 "jae" ⟨.J, .z⟩),
    (0x84, op1 .force64 "je" ⟨.J, .z⟩), (0x85, op1 .force64 "jne" ⟨.J, .z⟩), (0x86, op1 .force64 "jbe" ⟨.J, .z⟩),
    (0x87, op1 .force64 "ja" ⟨.J, .z⟩), (0x88, op1 .force64 "js" ⟨.J, .z⟩), (0x89, op1 .force64 "jns" ⟨.J, .z⟩),
    (0x8a, op1 .force64 "jp" ⟨.J, .z⟩), (0x8b, op1 .force64 "jnp" ⟨.J, .z⟩), (0x8c, op1 .force64 "jl" ⟨.J, .z⟩),
    (0x8d, op1 .force64 "jge" ⟨.J, .z⟩), (0x8e, op1 .force64 "jle" ⟨.J, .z⟩), (0x8f, op1 .force64 "jg" ⟨.J, .z⟩),
    (0x90, op1 .none "seto" ⟨.E, .b⟩), (0x91, op1 .none "setno" ⟨.E, .b⟩), (0x92, op1 .none "setb" ⟨.E, .b⟩),
    (0x93, op1 .none "setae" ⟨.E, .b⟩), (0x94, op1 .none "setz" ⟨.E, .b⟩), (0x95, op1 .none "setnz" ⟨.E, .b⟩),
    (0x96, op1 .none "setbe" ⟨.E, .b⟩), (0x97, op1 .none "seta" ⟨.E, .b⟩), (0x98, op1 .none "sets" ⟨.E, .b⟩),
    (0x99, op1 .none "setns" ⟨.E, .b⟩), (0x9a, op1 .none "setp" ⟨.E, .b⟩), (0x9b, op1 .none "setnp" ⟨.E, .b⟩),
    (0x9c, op1 .none "setl" ⟨.E, .b⟩), (0x9d, op1 .none "setge" ⟨.E, .b⟩), (0x9e, op1 .none "setle" ⟨.E, .b⟩),
    (0x9f, op1 .none "setg" ⟨.E, .b⟩), (0xa0, op1 .default64 "push" ⟨.none, .FS⟩),
    (0xa1, op1 .default64 "pop" ⟨.none, .FS⟩), (0xa2, op0 .none "cpuid"),
    (0xa3, op2 .none "bt" ⟨.E, .v⟩ ⟨.G, .v⟩), (0xa4, op3 .none "vshld" ⟨.E, .v⟩ ⟨.G, .v⟩ ⟨.I, .b⟩),
    (0xa5, op3 .none "vshld" ⟨.E, .v⟩ ⟨.G, .v⟩ ⟨.none, .CL⟩), (0xa6, op0 .none "montmul"),
    (0xa7, op0 .none "xcryptecb"), (0xa8, op1 .default64 "push" ⟨.none, .GS⟩),
    (0xa9, op1 .default64 "pop" ⟨.none, .GS⟩), (0xaa, op0 .none "rsm"),
    (0xab, op2 .none "bts" ⟨.E, .v⟩ ⟨.G, .v⟩), (0xac, op3 .none "vshrd" ⟨.E, .v⟩ ⟨.G, .v⟩ ⟨.I, .b⟩),
    (0xad, op3 .none "vshrd" ⟨.E, .v⟩ ⟨.G, .v⟩ ⟨.none, .CL⟩), (0xae, group0 15),
    (0xaf, named2 "imul" "imul2" ⟨.G, .v⟩ ⟨.E, .v⟩), (0xb0, op2 .none "cmpxchg" ⟨.E, .b⟩ ⟨.G, .b⟩),
    (0xb1, op2 .none "cmpxchg" ⟨.E, .v⟩ ⟨.G, .v⟩), (0xb2, op2 .none "lss" ⟨.G, .v⟩ ⟨.M, .p⟩),
    (0xb3, op2 .none "btr" ⟨.E, .v⟩ ⟨.G, .v⟩), (0xb4, op2 .none "lfs" ⟨.G, .z⟩ ⟨.M, .p⟩),
    (0xb5, op2 .none "lgs" ⟨.G, .z⟩ ⟨.M, .p⟩), (0xb6, op2 .none "movzx" ⟨.G, .v⟩ ⟨.E, .b⟩),
    (0xb7, op2 .none "movzx" ⟨.G, .y⟩ ⟨.E, .w⟩), (0xb9, group0 10), (0xba, group2 8 ⟨.E, .v⟩ ⟨.I, .b⟩),
    (0xbb, op2 .none "btc" ⟨.E, .v⟩ ⟨.G, .v⟩), (0xbc, op2 .none "bsf" ⟨.G, .v⟩ ⟨.E, .v⟩),
    (0xbd, op2 .none "bsr" ⟨.G, .v⟩ ⟨.E, .v⟩), (0xbe, op2 .none "movsx" ⟨.G, .v⟩ ⟨.E, .b⟩),
    (0xbf, op2 .none "movsx" ⟨.G, .v⟩ ⟨.E, .w⟩), (0xc0, op2 .none "xadd" ⟨.E, .b⟩ ⟨.G, .b⟩),
    (0xc1, op2 .none "xadd" ⟨.E, .v⟩ ⟨.G, .v⟩),
    (0xc2, op4 .none "vcmpps" ⟨.V, .ps⟩ ⟨.H, .ps⟩ ⟨.W, .ps⟩ ⟨.I, .b⟩),
    (0xc3, op2 .none "movnti" ⟨.M, .y⟩ ⟨.G, .y⟩), (0xc4, op2 .none "pinsrw" ⟨.P, .q⟩ ⟨.R, .y⟩),
    (0xc5, op3 .none "vpextrw" ⟨.G, .d⟩ ⟨.N, .q⟩ ⟨.I, .b⟩),
    (0xc6, op4 .none "vshufps" ⟨.V, .ps⟩ ⟨.H, .ps⟩ ⟨.W, .ps⟩ ⟨.I, .b⟩), (0xc7, group0 9),
    (0xc8, op1 .none "bswap" ⟨.none, .rAX⟩), (0xc9, op1 .none "bswap" ⟨.none, .rCX⟩),
    (0xca, op1 .none "bswap" ⟨.none, .rDX⟩), (0xcb, op1 .none "bswap" ⟨.none, .rBX⟩),
    (0xcc, op1 .none "bswap" ⟨.none, .rSP⟩), (0xcd, op1 .none "bswap" ⟨.none, .rBP⟩),
    (0xce, op1 .none "bswap" ⟨.none, .rSI⟩), (0xcf, op1 .none "bswap" ⟨.none, .rDI⟩),
    (0xd1, op2 .none "psrlw" ⟨.P, .q⟩ ⟨.Q, .q⟩), (0xd2, op2 .none "psrld" ⟨.P, .q⟩ ⟨.Q, .q⟩),
    (0xd3, op2 .none "psrlq" ⟨.P, .q⟩ ⟨.Q, .q⟩), (0xd4, op2 .none "paddq" ⟨.P, .q⟩ ⟨.Q, .q⟩),
    (0xd5, op2 .none "pmullw" ⟨.P, .q⟩ ⟨.Q, .q⟩), (0xd7, op2 .none "pmovmskb" ⟨.G, .d⟩ ⟨.N, .q⟩),
    (0xd8, op2 .none "psubusb" ⟨.P, .q⟩ ⟨.Q, .q⟩), (0xd9, op2 .none "psubusw" ⟨.P, .q⟩ ⟨.Q, .q⟩),
    (0xda, op2 .none "pminub" ⟨.P, .q⟩ ⟨.Q, .q⟩), (0xdb, op2 .none "pand" ⟨.P, .q⟩ ⟨.Q, .q⟩),
    (0xdc, op2 .none "paddusb" ⟨.P, .q⟩ ⟨.Q, .q⟩), (0xdd, op2 .none "paddusw" ⟨.P, .q⟩ ⟨.Q, .q⟩),
    (0xde, op2 .none "pmaxub" ⟨.P, .q⟩ ⟨.Q, .q⟩), (0xdf, op2 .none "pandn" ⟨.P, .q⟩ ⟨.Q, .q⟩),
    (0xe0, op2 .none "pavgb" ⟨.P, .q⟩ ⟨.Q, .q⟩), (0xe1, op2 .none "psraw" ⟨.P, .q⟩ ⟨.Q, .q⟩),
    (0xe2, op2 .none "psrad" ⟨.P, .q⟩ ⟨.Q, .q⟩), (0xe3, op2 .none "pavgw" ⟨.P, .q⟩ ⟨.Q, .q⟩),
    (0xe4, op2 .none "pmulhuw" ⟨.P, .q⟩ ⟨.Q, .q⟩), (0xe5, op2 .none "pmulhw" ⟨.P, .q⟩ ⟨.Q, .q⟩),
    (0xe7, op2 .none "movntq" ⟨.M, .q⟩ ⟨.P, .q⟩), (0xe8, op2 .none "psubsb" ⟨.P, .q⟩ ⟨.Q, .q⟩),
    (0xe9, op2 .none "psubsw" ⟨.P, .q⟩ ⟨.Q, .q⟩), (0xea, op2 .none "pminsw" ⟨.P, .q⟩ ⟨.Q, .q⟩),
    (0xeb, op2 .none "por" ⟨.P, .q⟩ ⟨.Q, .q⟩), (0xec, op2 .none "paddsb" ⟨.P, .q⟩ ⟨.Q, .q⟩),
    (0xed, op2 .none "paddsw" ⟨.P, .q⟩ ⟨.Q, .q⟩), (0xee, op2 .none "pmaxsw" ⟨.P, .q⟩ ⟨.Q, .q⟩),
    (0xef, op2 .none "pxor" ⟨.P, .q⟩ ⟨.Q, .q⟩), (0xf1, op2 .none "psllw" ⟨.P, .q⟩ ⟨.Q, .q⟩),
    (0xf2, op2 .none "pslld" ⟨.P, .q⟩ ⟨.Q, .q⟩), (0xf3, op2 .none "psllq" ⟨.P, .q⟩ ⟨.Q, .q⟩),
    (0xf4, op2 .none "pmuludq" ⟨.P, .q⟩ ⟨.Q, .q⟩), (0xf5, op2 .none "pmaddwd" ⟨.P, .q⟩ ⟨.Q, .q⟩),
    (0xf6, op2 .none "psadbw" ⟨.P, .q⟩ ⟨.Q, .q⟩), (0xf7, op2 .none "maskmovq" ⟨.P, .q⟩ ⟨.N, .q⟩),
    (0xf8, op2 .none "psubb" ⟨.P, .q⟩ ⟨.Q, .q⟩), (0xf9, op2 .none "psubw" ⟨.P, .q⟩ ⟨.Q, .q⟩),
    (0xfa, op2 .none "psubd" ⟨.P, .q⟩ ⟨.Q, .q⟩), (0xfb, op2 .none "psubq" ⟨.P, .q⟩ ⟨.Q, .q⟩),
    (0xfc, op2 .none "paddb" ⟨.P, .q⟩ ⟨.Q, .q⟩), (0xfd, op2 .none "paddw" ⟨.P, .q⟩ ⟨.Q, .q⟩),
    (0xfe, op2 .none "paddd" ⟨.P, .q⟩ ⟨.Q, .q⟩)]

def twobyte66Table : OpcodeTable where
  size := 256
  entries := [(0x10, op2 .none "movupd" ⟨.V, .pd⟩ ⟨.W, .pd⟩), (0x11, op2 .none "movupd" ⟨.W, .pd⟩ ⟨.V, .pd⟩),
    (0x12, op3 .none "vmovlpd" ⟨.V, .q⟩ ⟨.H, .q⟩ ⟨.M, .q⟩), (0x13, op2 .none "movlpd" ⟨.M, .q⟩ ⟨.V, .q⟩),
    (0x14, op3 .none "vunpcklpd" ⟨.V, .x⟩ ⟨.H, .x⟩ ⟨.W, .x⟩),
    (0x15, op3 .none "vunpckhpd" ⟨.V, .x⟩ ⟨.H, .x⟩ ⟨.W, .x⟩),
    (0x16, op3 .none "vmovhpd" ⟨.V, .dq⟩ ⟨.H, .q⟩ ⟨.M, .q⟩), (0x17, op2 .none "movhpd" ⟨.M, .q⟩ ⟨.V, .q⟩),
    (0x28, op2 .none "movapd" ⟨.V, .pd⟩ ⟨.W, .pd⟩), (0x29, op2 .none "movapd" ⟨.W, .pd⟩ ⟨.V, .pd⟩),
    (0x2a, op2 .none "cvtpi2pd" ⟨.V, .pd⟩ ⟨.Q, .pi⟩), (0x2b, op2 .none "movntpd" ⟨.M, .pd⟩ ⟨.V, .pd⟩),
    (0x2c, op2 .none "cvttpd2pi" ⟨.P, .pi⟩ ⟨.W, .pd⟩), (0x2d, op2 .none "cvtpd2pi" ⟨.Q, .pi⟩ ⟨.W, .pd⟩),
    (0x2e, op2 .none "ucomisd" ⟨.V, .sd⟩ ⟨.W, .sd⟩), (0x2f, op2 .none "comisd" ⟨.V, .sd⟩ ⟨.W, .sd⟩),
    (0x50, op2 .none "movmskpd" ⟨.G, .d⟩ ⟨.U, .pd⟩), (0x51, op2 .none "sqrtpd" ⟨.V, .pd⟩ ⟨.W, .pd⟩),
    (0x54, op3 .none "vandpd" ⟨.V, .pd⟩ ⟨.H, .pd⟩ ⟨.W, .pd⟩),
    (0x55, op3 .none "vandnpd" ⟨.V, .pd⟩ ⟨.H, .pd⟩ ⟨.W, .pd⟩),
    (0x56, op3 .none "vorpd" ⟨.V, .pd⟩ ⟨.H, .pd⟩ ⟨.W, .pd⟩),
    (0x57, op3 .none "vxorpd" ⟨.V, .pd⟩ ⟨.H, .pd⟩ ⟨.W, .pd⟩),
    (0x58, op3 .none "vaddpd" ⟨.V, .pd⟩ ⟨.H, .pd⟩ ⟨.W, .pd⟩),
    (0x59, op3 .none "vmulpd" ⟨.V, .pd⟩ ⟨.H, .pd⟩ ⟨.W, .pd⟩), (0x5a, op2 .none "cvtpd2ps" ⟨.V, .ps⟩ ⟨.W, .pd⟩),
    (0x5b, op2 .none "cvtps2dq" ⟨.V, .dq⟩ ⟨.W, .pd⟩), (0x5c, op3 .none "vsubpd" ⟨.V, .pd⟩ ⟨.H, .pd⟩ ⟨.W, .pd⟩),
    (0x5d, op3 .none "vminpd" ⟨.V, .pd⟩ ⟨.H, .pd⟩ ⟨.W, .pd⟩),
    (0x5e, op3 .none "vdivpd" ⟨.V, .pd⟩ ⟨.H, .pd⟩ ⟨.W, .pd⟩),
    (0x5f, op3 .none "vmaxpd" ⟨.V, .pd⟩ ⟨.H, .pd⟩ ⟨.W, .pd⟩),
    (0x60, op3 .none "vpunpcklbw" ⟨.V, .x⟩ ⟨.H, .x⟩ ⟨.W, .x⟩),
    (0x61, op3 .none "vpunpcklwd" ⟨.V, .x⟩ ⟨.H, .x⟩ ⟨.W, .x⟩),
    (0x62, op3 .none "vpunpckldq" ⟨.V, .x⟩ ⟨.H, .x⟩ ⟨.W, .x⟩),
    (0x63, op3 .none "vpacksswb" ⟨.V, .x⟩ ⟨.H, .x⟩ ⟨.W, .x⟩),
    (0x64, op3 .none "vpcmpgtb" ⟨.V, .x⟩ ⟨.H, .x⟩ ⟨.W, .x⟩),
    (0x65, op3 .none "vpcmpgtw" ⟨.V, .x⟩ ⟨.H, .x⟩ ⟨.W, .x⟩),
    (0x66, op3 .none "vpcmpgtd" ⟨.V, .x⟩ ⟨.H, .x⟩ ⟨.W, .x⟩),
    (0x67, op3 .none "vpackuswb" ⟨.V, .x⟩ ⟨.H, .x⟩ ⟨.W, .x⟩),
    (0x68, op3 .none "vpunpckhbw" ⟨.V, .x⟩ ⟨.H, .x⟩ ⟨.W, .x⟩),
    (0x69, op3 .none "vpunpckhwd" ⟨.V, .x⟩ ⟨.H, .x⟩ ⟨.W, .x⟩),
    (0x6a, op3 .none "vpunpckhdq" ⟨.V, .x⟩ ⟨.H, .x⟩ ⟨.W, .x⟩),
    (0x6b, op3 .none "vpackssdw" ⟨.V, .x⟩ ⟨.H, .x⟩ ⟨.W, .x⟩),
    (0x6c, op3 .none "vpunpcklqdq" ⟨.V, .x⟩ ⟨.H, .x⟩ ⟨.W, .x⟩),
    (0x6d, op3 .none "vpunpckhqdq" ⟨.V, .x⟩ ⟨.H, .x⟩ ⟨.W, .x⟩), (0x6e, op2 .none "vmovd" ⟨.V, .y⟩ ⟨.E, .y⟩),
    (0x6f, op2 .none "movdqa" ⟨.V, .x⟩ ⟨.W, .x⟩), (0x70, op3 .none "vpshufd" ⟨.V, .x⟩ ⟨.W, .x⟩ ⟨.I, .b⟩),
    (0x71, group0 12), (0x72, group0 13), (0x73, group0 14),
    (0x74, op3 .none "vpcmpeqb" ⟨.V, .x⟩ ⟨.H, .x⟩ ⟨.W, .x⟩),
    (0x75, op3 .none "vpcmpeqw" ⟨.V, .x⟩ ⟨.H, .x⟩ ⟨.W, .x⟩),
    (0x76, op3 .none "vpcmpeqd" ⟨.V, .x⟩ ⟨.H, .x⟩ ⟨.W, .x⟩),
    (0x7c, op3 .none "vhaddpd" ⟨.V, .pd⟩ ⟨.H, .pd⟩ ⟨.W, .pd⟩),
    (0x7d, op3 .none "vhsubpd" ⟨.V, .pd⟩ ⟨.H, .pd⟩ ⟨.W, .pd⟩), (0x7e, op2 .none "vmovd" ⟨.E, .y⟩ ⟨.V, .y⟩),
    (0x7f, op2 .none "movdqa" ⟨.W, .x⟩ ⟨.V, .x⟩),
    (0xc2, op4 .none "vcmppd" ⟨.V, .pd⟩ ⟨.H, .pd⟩ ⟨.W, .pd⟩ ⟨.I, .b⟩),
    (0xc4, op3 .none "vpinsrw" ⟨.V, .pd⟩ ⟨.H, .dq⟩ ⟨.I, .b⟩),
    (0xc5, op3 .none "pextrw" ⟨.G, .d⟩ ⟨.U, .dq⟩ ⟨.I, .b⟩),
    (0xc6, op4 .none "vshufpd" ⟨.V, .pd⟩ ⟨.H, .pd⟩ ⟨.W, .pd⟩ ⟨.I, .b⟩), (0xc7, group0 9),
    (0xd0, op3 .none "vaddsubpd" ⟨.V, .pd⟩ ⟨.H, .pd⟩ ⟨.W, .pd⟩),
    (0xd1, op3 .none "vpsrlw" ⟨.V, .x⟩ ⟨.H, .x⟩ ⟨.W, .x⟩), (0xd2, op3 .none "vpsrld" ⟨.V, .x⟩ ⟨.H, .x⟩ ⟨.W, .x⟩),
    (0xd3, op3 .none "vpsrlq" ⟨.V, .x⟩ ⟨.H, .x⟩ ⟨.W, .x⟩), (0xd4, op3 .none "vpaddq" ⟨.V, .x⟩ ⟨.H, .x⟩ ⟨.W, .x⟩),
    (0xd5, op3 .none "vpmullw" ⟨.V, .x⟩ ⟨.H, .x⟩ ⟨.W, .x⟩), (0xd6, op2 .none "movq" ⟨.W, .q⟩ ⟨.V, .q⟩),
    (0xd7, op2 .none "pmovmskb" ⟨.G, .d⟩ ⟨.U, .x⟩), (0xd8, op3 .none "vpsubusb" ⟨.V, .x⟩ ⟨.H, .x⟩ ⟨.W, .x⟩),
    (0xd9, op3 .none "vpsubusw" ⟨.V, .x⟩ ⟨.H, .x⟩ ⟨.W, .x⟩),
    (0xda, op3 .none "vpminub" ⟨.V, .x⟩ ⟨.H, .x⟩ ⟨.W, .x⟩), (0xdb, op3 .none "vpand" ⟨.V, .x⟩ ⟨.H, .x⟩ ⟨.W, .x⟩),
    (0xdc, op3 .none "vpaddusb" ⟨.V, .x⟩ ⟨.H, .x⟩ ⟨.W, .x⟩),
    (0xdd, op3 .none "vpaddusw" ⟨.V, .x⟩ ⟨.H, .x⟩ ⟨.W, .x⟩),
    (0xde, op3 .none "vpmaxub" ⟨.V, .x⟩ ⟨.H, .x⟩ ⟨.W, .x⟩),
    (0xdf, op3 .none "vpandn" ⟨.V, .x⟩ ⟨.H, .x⟩ ⟨.W, .x⟩), (0xe0, op3 .none "vpavgb" ⟨.V, .x⟩ ⟨.H, .x⟩ ⟨.W, .x⟩),
    (0xe1, op3 .none "vpsraw" ⟨.V, .x⟩ ⟨.H, .x⟩ ⟨.W, .x⟩), (0xe2, op3 .none "vpsrad" ⟨.V, .x⟩ ⟨.H, .x⟩ ⟨.W, .x⟩),
    (0xe3, op3 .none "vpavgw" ⟨.V, .x⟩ ⟨.H, .x⟩ ⟨.W, .x⟩),
    (0xe4, op3 .none "vpmulhuw" ⟨.V, .x⟩ ⟨.H, .x⟩ ⟨.W, .x⟩),
    (0xe5, op3 .none "vpmulhw" ⟨.V, .x⟩ ⟨.H, .x⟩ ⟨.W, .x⟩), (0xe6, op2 .none "cvttpd2dq" ⟨.V, .x⟩ ⟨.W, .pd⟩),
    (0xe7, op2 .none "movntdq" ⟨.M, .x⟩ ⟨.V, .x⟩), (0xe8, op3 .none "vpsubsb" ⟨.V, .x⟩ ⟨.H, .x⟩ ⟨.W, .x⟩),
    (0xe9, op3 .none "vpsubsw" ⟨.V, .x⟩ ⟨.H, .x⟩ ⟨.W, .x⟩),
    (0xea, op3 .none "vpminsw" ⟨.V, .x⟩ ⟨.H, .x⟩ ⟨.W, .x⟩), (0xeb, op3 .none "vpor" ⟨.V, .x⟩ ⟨.H, .x⟩ ⟨.W, .x⟩),
    (0xec, op3 .none "vpaddsb" ⟨.V, .x⟩ ⟨.H, .x⟩ ⟨.W, .x⟩),
    (0xed, op3 .none "vpaddsw" ⟨.V, .x⟩ ⟨.H, .x⟩ ⟨.W, .x⟩),
    (0xee, op3 .none "vpmaxsw" ⟨.V, .x⟩ ⟨.H, .x⟩ ⟨.W, .x⟩), (0xef, op3 .none "vpxor" ⟨.V, .x⟩ ⟨.H, .x⟩ ⟨.W, .x⟩),
    (0xf1, op2 .none "psllw" ⟨.V, .x⟩ ⟨.W, .x⟩), (0xf2, op2 .none "pslld" ⟨.V, .x⟩ ⟨.W, .x⟩),
    (0xf3, op2 .none "psllq" ⟨.V, .x⟩ ⟨.W, .x⟩), (0xf4, op2 .none "pmuludq" ⟨.V, .x⟩ ⟨.W, .x⟩),
    (0xf5, op3 .none "vpmaddwd" ⟨.V, .x⟩ ⟨.H, .x⟩ ⟨.W, .x⟩),
    (0xf6, op3 .none "vpsadbw" ⟨.V, .x⟩ ⟨.H, .x⟩ ⟨.W, .x⟩), (0xf7, op2 .none "maskmovdqu" ⟨.V, .dq⟩ ⟨.U, .dq⟩),
    (0xf8, op3 .none "vpsubb" ⟨.V, .x⟩ ⟨.H, .x⟩ ⟨.W, .x⟩), (0xf9, op3 .none "vpsubw" ⟨.V, .x⟩ ⟨.H, .x⟩ ⟨.W, .x⟩),
    (0xfa, op3 .none "vpsubd" ⟨.V, .x⟩ ⟨.H, .x⟩ ⟨.W, .x⟩), (0xfb, op3 .none "vpsubq" ⟨.V, .x⟩ ⟨.H, .x⟩ ⟨.W, .x⟩),
    (0xfc, op3 .none "vpaddb" ⟨.V, .x⟩ ⟨.H, .x⟩ ⟨.W, .x⟩), (0xfd, op3 .none "vpaddw" ⟨.V, .x⟩ ⟨.H, .x⟩ ⟨.W, .x⟩),
    (0xfe, op3 .none "vpaddd" ⟨.V, .x⟩ ⟨.H, .x⟩ ⟨.W, .x⟩)]

def twobyteF3Table : OpcodeTable where
  size := 256
  entries := [(0x10, op3 .none "vmovss" ⟨.V, .x⟩ ⟨.H, .x⟩ ⟨.W, .ss⟩),
    (0x11, op3 .none "vmovss" ⟨.W, .ss⟩ ⟨.H, .x⟩ ⟨.V, .ss⟩), (0x12, op2 .none "movsldup" ⟨.V, .x⟩ ⟨.W, .x⟩),
    (0x16, op2 .none "movshdup" ⟨.V, .x⟩ ⟨.W, .x⟩), (0x2a, op3 .none "vcvtsi2ss" ⟨.V, .ss⟩ ⟨.H, .ss⟩ ⟨.E, .y⟩),
    (0x2c, op2 .none "cvttss2si" ⟨.G, .y⟩ ⟨.W, .ss⟩), (0x2d, op2 .none "cvtss2si" ⟨.G, .y⟩ ⟨.W, .ss⟩),
    (0x51, op3 .none "vsqrtss" ⟨.V, .ss⟩ ⟨.H, .ss⟩ ⟨.W, .ss⟩),
    (0x52, op3 .none "vrsqrtss" ⟨.V, .ss⟩ ⟨.H, .ss⟩ ⟨.W, .ss⟩),
    (0x53, op3 .none "vrcpss" ⟨.V, .ss⟩ ⟨.H, .ss⟩ ⟨.W, .ss⟩),
    (0x58, op3 .none "vaddss" ⟨.V, .ss⟩ ⟨.H, .ss⟩ ⟨.W, .ss⟩),
    (0x59, op3 .none "vmulss" ⟨.V, .ss⟩ ⟨.H, .ss⟩ ⟨.W, .ss⟩),
    (0x5a, op3 .none "vcvtss2sd" ⟨.V, .sd⟩ ⟨.H, .x⟩ ⟨.W, .ss⟩),
    (0x5b, op2 .none "cvttps2dq" ⟨.V, .dq⟩ ⟨.W, .ps⟩), (0x5c, op3 .none "vsubss" ⟨.V, .ss⟩ ⟨.H, .ss⟩ ⟨.W, .ss⟩),
    (0x5d, op3 .none "vminss" ⟨.V, .ss⟩ ⟨.H, .ss⟩ ⟨.W, .ss⟩),
    (0x5e, op3 .none "vdivss" ⟨.V, .ss⟩ ⟨.H, .ss⟩ ⟨.W, .ss⟩),
    (0x5f, op3 .none "vmaxss" ⟨.V, .ss⟩ ⟨.H, .ss⟩ ⟨.W, .ss⟩), (0x6f, op2 .none "movdqu" ⟨.V, .x⟩ ⟨.W, .x⟩),
    (0x70, op3 .none "vpshufhw" ⟨.V, .x⟩ ⟨.W, .x⟩ ⟨.I, .b⟩), (0x7e, op2 .none "movq" ⟨.V, .q⟩ ⟨.W, .q⟩),
    (0x7f, op2 .none "movdqu" ⟨.W, .x⟩ ⟨.V, .x⟩), (0xae, group0 15),
    (0xb8, op2 .none "popcnt" ⟨.G, .v⟩ ⟨.E, .v⟩), (0xbc, op2 .none "tzcnt" ⟨.G, .v⟩ ⟨.E, .v⟩),
    (0xbd, op2 .none "lzcnt" ⟨.G, .v⟩ ⟨.E, .v⟩),
    (0xc2, op4 .none "vcmpss" ⟨.V, .ss⟩ ⟨.H, .ss⟩ ⟨.W, .ss⟩ ⟨.I, .b⟩), (0xc7, group0 9),
    (0xd6, op2 .none "vmovq2dq" ⟨.V, .dq⟩ ⟨.N, .q⟩), (0xe6, op2 .none "cvtdq2pd" ⟨.V, .x⟩ ⟨.W, .pd⟩)]

def twobyteF2Table : OpcodeTable where
  size := 256
  entries := [(0x10, op3 .none "vmovsd" ⟨.V, .x⟩ ⟨.H, .x⟩ ⟨.W, .sd⟩),
    (0x11, op3 .none "vmovsd" ⟨.W, .sd⟩ ⟨.H, .x⟩ ⟨.V, .sd⟩), (0x12, op2 .none "movddup" ⟨.V, .x⟩ ⟨.W, .x⟩),
    (0x2a, op3 .none "vcvtsi2sd" ⟨.V, .sd⟩ ⟨.H, .sd⟩ ⟨.E, .y⟩), (0x2c, op2 .none "cvttsd2si" ⟨.G, .y⟩ ⟨.W, .sd⟩),
    (0x2d, op2 .none "cvtsd2si" ⟨.G, .y⟩ ⟨.W, .sd⟩), (0x38, op2 .none "crc32" ⟨.G, .y⟩ ⟨.E, .b⟩),
    (0x51, op3 .none "vsqrtsd" ⟨.V, .sd⟩ ⟨.H, .sd⟩ ⟨.W, .sd⟩),
    (0x58, op3 .none "vaddsd" ⟨.V, .sd⟩ ⟨.H, .sd⟩ ⟨.W, .sd⟩),
    (0x59, op3 .none "vmulsd" ⟨.V, .sd⟩ ⟨.H, .sd⟩ ⟨.W, .sd⟩),
    (0x5a, op3 .none "vcvtsd2ss" ⟨.V, .ss⟩ ⟨.H, .x⟩ ⟨.W, .sd⟩),
    (0x5c, op3 .none "vsubsd" ⟨.V, .sd⟩ ⟨.H, .sd⟩ ⟨.W, .sd⟩),
    (0x5d, op3 .none "vminsd" ⟨.V, .sd⟩ ⟨.H, .sd⟩ ⟨.W, .sd⟩),
    (0x5e, op3 .none "vdivsd" ⟨.V, .sd⟩ ⟨.H, .sd⟩ ⟨.W, .sd⟩),
    (0x5f, op3 .none "vmaxsd" ⟨.V, .sd⟩ ⟨.H, .sd⟩ ⟨.W, .sd⟩),
    (0x70, op3 .none "vpshuflw" ⟨.V, .x⟩ ⟨.W, .x⟩ ⟨.I, .b⟩),
    (0x7c, op3 .none "vhaddps" ⟨.V, .ps⟩ ⟨.H, .ps⟩ ⟨.W, .ps⟩),
    (0x7d, op3 .none "vhsubps" ⟨.V, .ps⟩ ⟨.H, .ps⟩ ⟨.W, .ps⟩),
    (0xc2, op4 .none "vcmpsd" ⟨.V, .sd⟩ ⟨.H, .sd⟩ ⟨.W, .sd⟩ ⟨.I, .b⟩),
    (0xd0, op3 .none "vaddsubps" ⟨.V, .ps⟩ ⟨.H, .ps⟩ ⟨.W, .ps⟩), (0xd6, op2 .none "movdq2q" ⟨.P, .q⟩ ⟨.U, .q⟩),
    (0xe6, op2 .none "cvtpd2dq" ⟨.V, .x⟩ ⟨.W, .pd⟩), (0xf0, op2 .none "lddqu" ⟨.V, .x⟩ ⟨.M, .x⟩)]

def threebyte38Table : OpcodeTable where
  size := 256
  entries := [(0x00, op2 .none "pshufb" ⟨.P, .q⟩ ⟨.Q, .q⟩), (0x01, op2 .none "phaddw" ⟨.P, .q⟩ ⟨.Q, .q⟩),
    (0x02, op2 .none "phaddd" ⟨.P, .q⟩ ⟨.Q, .q⟩), (0x03, op2 .none "phaddsw" ⟨.P, .q⟩ ⟨.Q, .q⟩),
    (0x04, op2 .none "pmaddubsw" ⟨.P, .q⟩ ⟨.Q, .q⟩), (0x05, op2 .none "phsubw" ⟨.P, .q⟩ ⟨.Q, .q⟩),
    (0x06, op2 .none "phsubd" ⟨.P, .q⟩ ⟨.Q, .q⟩), (0x07, op2 .none "phsubsw" ⟨.P, .q⟩ ⟨.Q, .q⟩),
    (0x08, op2 .none "psignb" ⟨.P, .q⟩ ⟨.Q, .q⟩), (0x09, op2 .none "psignw" ⟨.P, .q⟩ ⟨.Q, .q⟩),
    (0x0a, op2 .none "psignd" ⟨.P, .q⟩ ⟨.Q, .q⟩), (0x0b, op2 .none "pmulhrsw" ⟨.P, .q⟩ ⟨.Q, .q⟩),
    (0x1c, op2 .none "pabsb" ⟨.P, .q⟩ ⟨.Q, .q⟩), (0x1d, op2 .none "pabsw" ⟨.P, .q⟩ ⟨.Q, .q⟩),
    (0x1e, op2 .none "pabsd" ⟨.P, .q⟩ ⟨.Q, .q⟩), (0xc8, op2 .none "sha1nexte" ⟨.V, .dq⟩ ⟨.W, .dq⟩),
    (0xc9, op2 .none "sha1msg1" ⟨.V, .dq⟩ ⟨.W, .dq⟩), (0xca, op2 .none "sha1msg2" ⟨.V, .dq⟩ ⟨.W, .dq⟩),
    (0xcb, op2 .none "sha256rnds2" ⟨.V, .dq⟩ ⟨.W, .dq⟩), (0xcc, op2 .none "sha256msg1" ⟨.V, .dq⟩ ⟨.W, .dq⟩),
    (0xcd, op2 .none "sha256msg2" ⟨.V, .dq⟩ ⟨.W, .dq⟩), (0xf0, op2 .none "movbe" ⟨.G, .y⟩ ⟨.M, .y⟩),
    (0xf1, op2 .none "movbe" ⟨.M, .y⟩ ⟨.G, .y⟩), (0xf2, op3 .none "vandn" ⟨.G, .y⟩ ⟨.B, .y⟩ ⟨.E, .y⟩),
    (0xf5, op3 .none "vbzhi" ⟨.G, .y⟩ ⟨.E, .y⟩ ⟨.B, .y⟩), (0xf7, op3 .none "vbextr" ⟨.G, .y⟩ ⟨.E, .y⟩ ⟨.B, .y⟩)]

def threebyte3866Table : OpcodeTable where
  size := 256
  entries := [(0x00, op3 .none "vpshufb" ⟨.V, .x⟩ ⟨.H, .x⟩ ⟨.W, .x⟩),
    (0x01, op3 .none "vphaddw" ⟨.V, .x⟩ ⟨.H, .x⟩ ⟨.W, .x⟩),
    (0x02, op3 .none "vphaddd" ⟨.V, .x⟩ ⟨.H, .x⟩ ⟨.W, .x⟩),
    (0x03, op3 .none "vphaddsw" ⟨.V, .x⟩ ⟨.H, .x⟩ ⟨.W, .x⟩),
    (0x04, op3 .none "vpmaddubsw" ⟨.V, .x⟩ ⟨.H, .x⟩ ⟨.W, .x⟩),
    (0x05, op3 .none "vphsubw" ⟨.V, .x⟩ ⟨.H, .x⟩ ⟨.W, .x⟩),
    (0x06, op3 .none "vphsubd" ⟨.V, .x⟩ ⟨.H, .x⟩ ⟨.W, .x⟩),
    (0x07, op3 .none "vphsubsw" ⟨.V, .x⟩ ⟨.H, .x⟩ ⟨.W, .x⟩),
    (0x08, op3 .none "vpsignb" ⟨.V, .x⟩ ⟨.H, .x⟩ ⟨.W, .x⟩),
    (0x09, op3 .none "vpsignw" ⟨.V, .x⟩ ⟨.H, .x⟩ ⟨.W, .x⟩),
    (0x0a, op3 .none "vpsignd" ⟨.V, .x⟩ ⟨.H, .x⟩ ⟨.W, .x⟩),
    (0x0b, op3 .none "vpmulhrsw" ⟨.V, .x⟩ ⟨.H, .x⟩ ⟨.W, .x⟩),
    (0x0c, op3 .none "vpermilp" ⟨.V, .x⟩ ⟨.H, .x⟩ ⟨.W, .x⟩),
    (0x0d, op3 .none "vpermilpd" ⟨.V, .x⟩ ⟨.H, .x⟩ ⟨.W, .x⟩), (0x0e, op2 .none "testps" ⟨.V, .x⟩ ⟨.W, .x⟩),
    (0x0f, op2 .none "testpd" ⟨.V, .x⟩ ⟨.W, .x⟩), (0x10, op2 .none "pblendvb" ⟨.V, .dq⟩ ⟨.W, .dq⟩),
    (0x13, op3 .none "vcvtph2ps" ⟨.V, .x⟩ ⟨.W, .x⟩ ⟨.I, .b⟩), (0x14, op2 .none "blendvps" ⟨.V, .dq⟩ ⟨.W, .dq⟩),
    (0x15, op2 .none "blendvpd" ⟨.V, .dq⟩ ⟨.W, .dq⟩), (0x17, op2 .none "ptest" ⟨.V, .x⟩ ⟨.W, .x⟩),
    (0x18, op2 .none "broadcastss" ⟨.V, .x⟩ ⟨.W, .d⟩), (0x19, op1 .none "broadcastsd" ⟨.W, .q⟩),
    (0x1a, op1 .none "broadcastf128" ⟨.M, .dq⟩), (0x1c, op2 .none "pabsb" ⟨.V, .x⟩ ⟨.W, .x⟩),
    (0x1d, op2 .none "pabsw" ⟨.V, .x⟩ ⟨.W, .x⟩), (0x1e, op2 .none "pabsd" ⟨.V, .x⟩ ⟨.W, .x⟩),
    (0x20, op2 .none "pmovsxbw" ⟨.V, .x⟩ ⟨.M, .q⟩), (0x21, op2 .none "pmovsxbd" ⟨.V, .x⟩ ⟨.M, .d⟩),
    (0x22, op2 .none "pmovsxbq" ⟨.V, .x⟩ ⟨.M, .w⟩), (0x23, op2 .none "pmovsxwd" ⟨.V, .x⟩ ⟨.M, .q⟩),
    (0x24, op2 .none "pmovsxwq" ⟨.V, .x⟩ ⟨.M, .d⟩), (0x25, op2 .none "pmovsxdq" ⟨.V, .x⟩ ⟨.M, .q⟩),
    (0x28, op3 .none "vpmuldq" ⟨.V, .x⟩ ⟨.H, .x⟩ ⟨.W, .x⟩),
    (0x29, op3 .none "vpcmpeqq" ⟨.V, .x⟩ ⟨.H, .x⟩ ⟨.W, .x⟩), (0x2a, op2 .none "movntdqa" ⟨.V, .x⟩ ⟨.M, .dq⟩),
    (0x2b, op3 .none "vpackusdw" ⟨.V, .x⟩ ⟨.H, .x⟩ ⟨.W, .x⟩),
    (0x2c, op3 .none "vmaskmovps" ⟨.V, .x⟩ ⟨.H, .x⟩ ⟨.M, .x⟩),
    (0x2d, op3 .none "vmaskmovpd" ⟨.V, .x⟩ ⟨.H, .x⟩ ⟨.M, .x⟩),
    (0x2e, op3 .none "vmaskmovps" ⟨.M, .x⟩ ⟨.H, .x⟩ ⟨.V, .x⟩),
    (0x2f, op3 .none "vmaskmovpd" ⟨.M, .x⟩ ⟨.H, .x⟩ ⟨.V, .x⟩), (0x30, op2 .none "pmovzxbw" ⟨.V, .x⟩ ⟨.M, .q⟩),
    (0x31, op2 .none "pmovzxbd" ⟨.V, .x⟩ ⟨.M, .d⟩), (0x32, op2 .none "pmovzxbq" ⟨.V, .x⟩ ⟨.M, .w⟩),
    (0x33, op2 .none "pmovzxwd" ⟨.V, .x⟩ ⟨.M, .q⟩), (0x34, op2 .none "pmovzxwq" ⟨.V, .x⟩ ⟨.M, .d⟩),
    (0x35, op2 .none "pmovzxdq" ⟨.V, .x⟩ ⟨.M, .q⟩), (0x36, op3 .none "vpermd" ⟨.V, .qq⟩ ⟨.H, .qq⟩ ⟨.W, .qq⟩),
    (0x37, op3 .none "vpcmpgtq" ⟨.V, .x⟩ ⟨.H, .x⟩ ⟨.W, .x⟩),
    (0x38, op3 .none "vpminsb" ⟨.V, .x⟩ ⟨.H, .x⟩ ⟨.W, .x⟩),
    (0x39, op3 .none "vpminsd" ⟨.V, .x⟩ ⟨.H, .x⟩ ⟨.W, .x⟩),
    (0x3a, op3 .none "vpminuw" ⟨.V, .x⟩ ⟨.H, .x⟩ ⟨.W, .x⟩),
    (0x3b, op3 .none "vpminud" ⟨.V, .x⟩ ⟨.H, .x⟩ ⟨.W, .x⟩),
    (0x3c, op3 .none "vpmaxsb" ⟨.V, .x⟩ ⟨.H, .x⟩ ⟨.W, .x⟩),
    (0x3d, op3 .none "vpmaxsd" ⟨.V, .x⟩ ⟨.H, .x⟩ ⟨.W, .x⟩),
    (0x3e, op3 .none "vpmaxuw" ⟨.V, .x⟩ ⟨.H, .x⟩ ⟨.W, .x⟩),
    (0x3f, op3 .none "vpmaxud" ⟨.V, .x⟩ ⟨.H, .x⟩ ⟨.W, .x⟩),
    (0x40, op3 .none "vpmulld" ⟨.V, .x⟩ ⟨.H, .x⟩ ⟨.W, .x⟩), (0x41, op2 .none "phminposuw" ⟨.V, .dq⟩ ⟨.W, .dq⟩),
    (0x58, op2 .none "pbroadcastd" ⟨.V, .x⟩ ⟨.W, .x⟩), (0x59, op2 .none "pbroadcastq" ⟨.V, .x⟩ ⟨.W, .x⟩),
    (0x5a, op2 .none "broadcasti128" ⟨.V, .dq⟩ ⟨.W, .dq⟩), (0x78, op2 .none "pbroadcastb" ⟨.V, .x⟩ ⟨.W, .x⟩),
    (0x79, op2 .none "pboradcastw" ⟨.V, .x⟩ ⟨.W, .x⟩), (0x80, op2 .none "invept" ⟨.G, .y⟩ ⟨.M, .dq⟩),
    (0x81, op2 .none "invvpid" ⟨.G, .y⟩ ⟨.M, .dq⟩), (0x82, op2 .none "invpcid" ⟨.G, .y⟩ ⟨.M, .dq⟩),
    (0x8c, op3 .none "vpmaskmovd" ⟨.V, .x⟩ ⟨.H, .x⟩ ⟨.M, .x⟩),
    (0x8e, op3 .none "vpmaskmovd" ⟨.M, .x⟩ ⟨.V, .x⟩ ⟨.H, .x⟩),
    (0x90, op3 .none "vgatherdd" ⟨.V, .x⟩ ⟨.H, .x⟩ ⟨.W, .x⟩),
    (0x91, op3 .none "vgatherqd" ⟨.V, .x⟩ ⟨.H, .x⟩ ⟨.W, .x⟩),
    (0x92, op3 .none "vgatherdps" ⟨.V, .x⟩ ⟨.H, .x⟩ ⟨.W, .x⟩),
    (0x93, op3 .none "vgatherqps" ⟨.V, .x⟩ ⟨.H, .x⟩ ⟨.W, .x⟩),
    (0x96, op3 .none "vfmaddsub132ps" ⟨.V, .x⟩ ⟨.H, .x⟩ ⟨.W, .x⟩),
    (0x97, op3 .none "vfmsubadd132ps" ⟨.V, .x⟩ ⟨.H, .x⟩ ⟨.W, .x⟩),
    (0x98, op3 .none "vfmadd132ps" ⟨.V, .x⟩ ⟨.H, .x⟩ ⟨.W, .x⟩),
    (0x99, op3 .none "vfmadd132ss" ⟨.V, .x⟩ ⟨.H, .x⟩ ⟨.W, .x⟩),
    (0x9a, op3 .none "vfmsub132ps" ⟨.V, .x⟩ ⟨.H, .x⟩ ⟨.W, .x⟩),
    (0x9b, op3 .none "vfmsub132ss" ⟨.V, .x⟩ ⟨.H, .x⟩ ⟨.W, .x⟩),
    (0x9c, op3 .none "vfmnadd132ps" ⟨.V, .x⟩ ⟨.H, .x⟩ ⟨.W, .x⟩),
    (0x9d, op3 .none "vfmnadd132ps" ⟨.V, .x⟩ ⟨.H, .x⟩ ⟨.W, .x⟩),
    (0x9e, op3 .none "vfmnsub132ps" ⟨.V, .x⟩ ⟨.H, .x⟩ ⟨.W, .x⟩),
    (0x9f, op3 .none "vfmnsub132ps" ⟨.V, .x⟩ ⟨.H, .x⟩ ⟨.W, .x⟩),
    (0xa6, op3 .none "vfmaddsub232ps" ⟨.V, .x⟩ ⟨.H, .x⟩ ⟨.W, .x⟩),
    (0xa7, op3 .none "vfmsubadd232ps" ⟨.V, .x⟩ ⟨.H, .x⟩ ⟨.W, .x⟩),
    (0xa8, op3 .none "vfmadd213ps" ⟨.V, .x⟩ ⟨.H, .x⟩ ⟨.W, .x⟩),
    (0xa9, op3 .none "vfmadd213ss" ⟨.V, .x⟩ ⟨.H, .x⟩ ⟨.W, .x⟩),
    (0xaa, op3 .none "vfmsub213ps" ⟨.V, .x⟩ ⟨.H, .x⟩ ⟨.W, .x⟩),
    (0xab, op3 .none "vfmsub213ss" ⟨.V, .x⟩ ⟨.H, .x⟩ ⟨.W, .x⟩),
    (0xac, op3 .none "vfnmadd213ps" ⟨.V, .x⟩ ⟨.H, .x⟩ ⟨.W, .x⟩),
    (0xad, op3 .none "vfnmadd213ss" ⟨.V, .x⟩ ⟨.H, .x⟩ ⟨.W, .x⟩),
    (0xae, op3 .none "vfnmsub213ps" ⟨.V, .x⟩ ⟨.H, .x⟩ ⟨.W, .x⟩),
    (0xaf, op3 .none "vfnmsub213ss" ⟨.V, .x⟩ ⟨.H, .x⟩ ⟨.W, .x⟩),
    (0xb6, op3 .none "vfmaddsub231ps" ⟨.V, .x⟩ ⟨.H, .x⟩ ⟨.W, .x⟩),
    (0xb7, op3 .none "vfmsubadd231ps" ⟨.V, .x⟩ ⟨.H, .x⟩ ⟨.W, .x⟩),
    (0xb8, op3 .none "vfmadd231ps" ⟨.V, .x⟩ ⟨.H, .x⟩ ⟨.W, .x⟩),
    (0xb9, op3 .none "vfmadd231ss" ⟨.V, .x⟩ ⟨.H, .x⟩ ⟨.W, .x⟩),
    (0xba, op3 .none "vfmsub231ps" ⟨.V, .x⟩ ⟨.H, .x⟩ ⟨.W, .x⟩),
    (0xbb, op3 .none "vfmsub231ss" ⟨.V, .x⟩ ⟨.H, .x⟩ ⟨.W, .x⟩),
    (0xbc, op3 .none "vfnmadd231ps" ⟨.V, .x⟩ ⟨.H, .x⟩ ⟨.W, .x⟩),
    (0xbd, op3 .none "vfnmadd231ss" ⟨.V, .x⟩ ⟨.H, .x⟩ ⟨.W, .x⟩),
    (0xbe, op3 .none "vfnmsub231ps" ⟨.V, .x⟩ ⟨.H, .x⟩ ⟨.W, .x⟩),
    (0xbf, op3 .none "vfnmsub231ss" ⟨.V, .x⟩ ⟨.H, .x⟩ ⟨.W, .x⟩), (0xdb, op2 .none "aesimc" ⟨.V, .dq⟩ ⟨.W, .dq⟩),
    (0xdc, op2 .none "aesenc" ⟨.V, .dq⟩ ⟨.W, .dq⟩),
    (0xdd, op3 .none "vaesenclast" ⟨.V, .dq⟩ ⟨.H, .dq⟩ ⟨.W, .dq⟩),
    (0xde, op3 .none "vaesdec" ⟨.V, .dq⟩ ⟨.H, .dq⟩ ⟨.W, .dq⟩),
    (0xdf, op2 .none "aesdeclast" ⟨.V, .dq⟩ ⟨.W, .dq⟩), (0xf0, op2 .none "movbe" ⟨.G, .w⟩ ⟨.M, .w⟩),
    (0xf1, op2 .none "movbe" ⟨.G, .w⟩ ⟨.M, .w⟩), (0xf3, group0 17), (0xf6, op2 .none "adcx" ⟨.G, .y⟩ ⟨.E, .y⟩),
    (0xf7, op3 .none "vshlx" ⟨.G, .y⟩ ⟨.E, .y⟩ ⟨.B, .y⟩)]

def threebyte38f2Table : OpcodeTable where
  size := 256
  entries := [(0xf0, op2 .none "crc32" ⟨.G, .y⟩ ⟨.E, .b⟩), (0xf1, op2 .none "crc32" ⟨.G, .y⟩ ⟨.E, .v⟩)]

def threebyte38f3Table : OpcodeTable where
  size := 256
  entries := []

def threebyte3aTable : OpcodeTable where
  size := 256
  entries := [(0x0f, op3 .none "palignr" ⟨.P, .q⟩ ⟨.Q, .q⟩ ⟨.I, .b⟩),
    (0xcc, op3 .none "vsha1rnds4" ⟨.V, .dq⟩ ⟨.W, .dq⟩ ⟨.I, .b⟩)]

def threebyte3a66Table : OpcodeTable where
  size := 256
  entries := [(0x00, op3 .none "vpermq" ⟨.V, .qq⟩ ⟨.W, .qq⟩ ⟨.I, .b⟩),
    (0x01, op3 .none "vpermpd" ⟨.V, .qq⟩ ⟨.W, .qq⟩ ⟨.I, .b⟩),
    (0x02, op4 .none "vblendd" ⟨.V, .x⟩ ⟨.H, .x⟩ ⟨.W, .x⟩ ⟨.I, .b⟩),
    (0x04, op3 .none "vpermilps" ⟨.V, .x⟩ ⟨.W, .x⟩ ⟨.I, .b⟩),
    (0x05, op3 .none "vpermilpd" ⟨.V, .x⟩ ⟨.W, .x⟩ ⟨.I, .b⟩),
    (0x06, op4 .none "vperm2f128" ⟨.V, .qq⟩ ⟨.H, .qq⟩ ⟨.W, .qq⟩ ⟨.I, .b⟩),
    (0x08, op3 .none "vroundps" ⟨.V, .x⟩ ⟨.W, .x⟩ ⟨.I, .b⟩),
    (0x09, op3 .none "vroundpd" ⟨.V, .x⟩ ⟨.W, .x⟩ ⟨.I, .b⟩),
    (0x0a, op3 .none "vroundss" ⟨.V, .ss⟩ ⟨.W, .ss⟩ ⟨.I, .b⟩),
    (0x0b, op3 .none "vroundsd" ⟨.V, .sd⟩ ⟨.W, .sd⟩ ⟨.I, .b⟩),
    (0x0c, op4 .none "vblendps" ⟨.V, .x⟩ ⟨.H, .x⟩ ⟨.W, .x⟩ ⟨.I, .b⟩),
    (0x0d, op4 .none "vblendpd" ⟨.V, .x⟩ ⟨.H, .x⟩ ⟨.W, .x⟩ ⟨.I, .b⟩),
    (0x0e, op4 .none "vpblendw" ⟨.V, .x⟩ ⟨.H, .x⟩ ⟨.W, .x⟩ ⟨.I, .b⟩),
    (0x0f, op4 .none "vpalignr" ⟨.V, .x⟩ ⟨.H, .x⟩ ⟨.W, .x⟩ ⟨.I, .b⟩),
    (0x14, op3 .none "pextrb" ⟨.M, .b⟩ ⟨.V, .dq⟩ ⟨.I, .b⟩),
    (0x15, op3 .none "pextrw" ⟨.M, .w⟩ ⟨.V, .dq⟩ ⟨.I, .b⟩),
    (0x16, op3 .none "pextrd" ⟨.E, .y⟩ ⟨.V, .dq⟩ ⟨.I, .b⟩),
    (0x17, op3 .none "extractps" ⟨.E, .d⟩ ⟨.V, .dq⟩ ⟨.I, .b⟩),
    (0x18, op4 .none "vinsertf128" ⟨.V, .qq⟩ ⟨.H, .qq⟩ ⟨.W, .qq⟩ ⟨.I, .b⟩),
    (0x19, op3 .none "vextractf128" ⟨.W, .dq⟩ ⟨.V, .qq⟩ ⟨.I, .b⟩),
    (0x20, op4 .none "vpinsrb" ⟨.V, .dq⟩ ⟨.H, .dq⟩ ⟨.M, .d⟩ ⟨.I, .b⟩),
    (0x21, op4 .none "vinsertps" ⟨.V, .dq⟩ ⟨.H, .dq⟩ ⟨.M, .d⟩ ⟨.I, .b⟩),
    (0x22, op4 .none "vpinsrd" ⟨.V, .dq⟩ ⟨.H, .dq⟩ ⟨.E, .y⟩ ⟨.I, .b⟩),
    (0x38, op4 .none "vinserti128" ⟨.V, .qq⟩ ⟨.H, .qq⟩ ⟨.W, .qq⟩ ⟨.I, .b⟩),
    (0x39, op3 .none "vextracti128" ⟨.W, .dq⟩ ⟨.V, .qq⟩ ⟨.I, .b⟩),
    (0x40, op4 .none "vdpps" ⟨.V, .x⟩ ⟨.H, .x⟩ ⟨.W, .x⟩ ⟨.I, .b⟩),
    (0x41, op4 .none "vdppd" ⟨.V, .dq⟩ ⟨.H, .dq⟩ ⟨.W, .dq⟩ ⟨.I, .b⟩),
    (0x42, op4 .none "vmpsadbw" ⟨.V, .x⟩ ⟨.H, .x⟩ ⟨.W, .x⟩ ⟨.I, .b⟩),
    (0x44, op4 .none "vpclmulqdq" ⟨.V, .dq⟩ ⟨.H, .dq⟩ ⟨.W, .dq⟩ ⟨.I, .b⟩),
    (0x46, op4 .none "vperm2i128" ⟨.V, .qq⟩ ⟨.H, .qq⟩ ⟨.W, .qq⟩ ⟨.I, .b⟩),
    (0x4a, op4 .none "vblendvps" ⟨.V, .x⟩ ⟨.H, .x⟩ ⟨.W, .x⟩ ⟨.L, .x⟩),
    (0x4b, op4 .none "vblendvpd" ⟨.V, .x⟩ ⟨.H, .x⟩ ⟨.W, .x⟩ ⟨.L, .x⟩),
    (0x4c, op4 .none "vblendvb" ⟨.V, .x⟩ ⟨.H, .x⟩ ⟨.W, .x⟩ ⟨.L, .x⟩),
    (0x60, op3 .none "vpcmpestrm" ⟨.V, .dq⟩ ⟨.W, .dq⟩ ⟨.I, .b⟩),
    (0x61, op3 .none "vpcmpestri" ⟨.V, .dq⟩ ⟨.W, .dq⟩ ⟨.I, .b⟩),
    (0x62, op3 .none "vpcmpistrm" ⟨.V, .dq⟩ ⟨.W, .dq⟩ ⟨.I, .b⟩),
    (0x63, op3 .none "vpcmpistri" ⟨.V, .dq⟩ ⟨.W, .dq⟩ ⟨.I, .b⟩),
    (0xdf, op3 .none "vaeskeygenassist" ⟨.V, .dq⟩ ⟨.W, .dq⟩ ⟨.I, .b⟩)]

def threebyte3af2Table : OpcodeTable where
  size := 256
  entries := []

def xop8Table : OpcodeTable where
  size := 256
  entries := []

def xop9Table : OpcodeTable where
  size := 256
  entries := []

def xopaTable : OpcodeTable where
  size := 256
  entries := []

end Panopticon.Amd64
