import Panopticon.Statement
import Panopticon.Library.Reader

/-! Operands of the amd64 decoder: registers, the forms an opcode table asks for, the reading
of ModRM, SIB, displacement and immediate bytes, and the RREIL code of an operand. -/

namespace Panopticon.Amd64
open Panopticon.Library

inductive Mode where
  | realMode
  | protectedMode
  | longMode
  deriving DecidableEq, Repr

inductive SegmentOverride where
  | none | cs | ss | ds | es | fs | gs
  deriving DecidableEq, Repr

inductive Register where
  | none | RAX | RBX | RCX | RDX | RDI | RSI | RSP | RBP | R8 | R9 | R10 | R11 | R12 | R13 | R14 | R15 | EAX
  | EBX | ECX | EDX | EDI | ESI | ESP | EBP | R8D | R9D | R10D | R11D | R12D | R13D | R14D | R15D | AX | BX | CX
  | DX | DI | SI | SP | BP | R8W | R9W | R10W | R11W | R12W | R13W | R14W | R15W | AL | BL | CL | DL | SPL | BPL
  | SIL | DIL | R8B | R9B | R10B | R11B | R12B | R13B | R14B | R15B | AH | BH | CH | DH | ST0 | ST1 | ST2 | ST3
  | ST4 | ST5 | ST6 | ST7 | ES | GS | DS | SS | CS | FS | MM0 | MM1 | MM2 | MM3 | MM4 | MM5 | MM6 | MM7 | MMX0
  | MMX1 | MMX2 | MMX3 | MMX4 | MMX5 | MMX6 | MMX7 | XMM0 | XMM1 | XMM2 | XMM3 | XMM4 | XMM5 | XMM6 | XMM7
  | XMM8 | XMM9 | XMM10 | XMM11 | XMM12 | XMM13 | XMM14 | XMM15 | YMM0 | YMM1 | YMM2 | YMM3 | YMM4 | YMM5 | YMM6
  | YMM7 | YMM8 | YMM9 | YMM10 | YMM11 | YMM12 | YMM13 | YMM14 | YMM15 | DR0 | DR1 | DR2 | DR3 | DR4 | DR5 | DR6
  | DR7 | DR8 | DR9 | DR10 | DR11 | DR12 | DR13 | DR14 | DR15 | CR0 | CR1 | CR2 | CR3 | CR4 | CR5 | CR6 | CR7
  | CR8 | CR9 | CR10 | CR11 | CR12 | CR13 | CR14 | CR15
  deriving DecidableEq, Repr

def Register.name : Register → String
  | .none => "" | .RAX => "RAX" | .RBX => "RBX" | .RCX => "RCX" | .RDX => "RDX" | .RDI => "RDI" | .RSI => "RSI"
  | .RSP => "RSP" | .RBP => "RBP" | .R8 => "R8" | .R9 => "R9" | .R10 => "R10" | .R11 => "R11" | .R12 => "R12"
  | .R13 => "R13" | .R14 => "R14" | .R15 => "R15" | .EAX => "EAX" | .EBX => "EBX" | .ECX => "ECX"
  | .EDX => "EDX" | .EDI => "EDI" | .ESI => "ESI" | .ESP => "ESP" | .EBP => "EBP" | .R8D => "R8D"
  | .R9D => "R9D" | .R10D => "R10D" | .R11D => "R11D" | .R12D => "R12D" | .R13D => "R13D" | .R14D => "R14D"
  | .R15D => "R15D" | .AX => "AX" | .BX => "BX" | .CX => "CX" | .DX => "DX" | .DI => "DI" | .SI => "SI"
  | .SP => "SP" | .BP => "BP" | .R8W => "R8W" | .R9W => "R9W" | .R10W => "R10W" | .R11W => "R11W"
  | .R12W => "R12W" | .R13W => "R13W" | .R14W => "R14W" | .R15W => "R15W" | .AL => "AL" | .BL => "BL"
  | .CL => "CL" | .DL => "DL" | .SPL => "SPL" | .BPL => "BPL" | .SIL => "SIL" | .DIL => "DIL" | .R8B => "R8B"
  | .R9B => "R9B" | .R10B => "R10B" | .R11B => "R11B" | .R12B => "R12B" | .R13B => "R13B" | .R14B => "R14B"
  | .R15B => "R15B" | .AH => "AH" | .BH => "BH" | .CH => "CH" | .DH => "DH" | .ST0 => "ST0" | .ST1 => "ST1"
  | .ST2 => "ST2" | .ST3 => "ST3" | .ST4 => "ST4" | .ST5 => "ST5" | .ST6 => "ST6" | .ST7 => "ST7" | .ES => "ES"
  | .GS => "GS" | .DS => "DS" | .SS => "SS" | .CS => "CS" | .FS => "FS" | .MM0 => "MM0" | .MM1 => "MM1"
  | .MM2 => "MM2" | .MM3 => "MM3" | .MM4 => "MM4" | .MM5 => "MM5" | .MM6 => "MM6" | .MM7 => "MM7"
  | .MMX0 => "MMX0" | .MMX1 => "MMX1" | .MMX2 => "MMX2" | .MMX3 => "MMX3" | .MMX4 => "MMX4" | .MMX5 => "MMX5"
  | .MMX6 => "MMX6" | .MMX7 => "MMX7" | .XMM0 => "XMM0" | .XMM1 => "XMM1" | .XMM2 => "XMM2" | .XMM3 => "XMM3"
  | .XMM4 => "XMM4" | .XMM5 => "XMM5" | .XMM6 => "XMM6" | .XMM7 => "XMM7" | .XMM8 => "XMM8" | .XMM9 => "XMM9"
  | .XMM10 => "XMM10" | .XMM11 => "XMM11" | .XMM12 => "XMM12" | .XMM13 => "XMM13" | .XMM14 => "XMM14"
  | .XMM15 => "XMM15" | .YMM0 => "YMM0" | .YMM1 => "YMM1" | .YMM2 => "YMM2" | .YMM3 => "YMM3" | .YMM4 => "YMM4"
  | .YMM5 => "YMM5" | .YMM6 => "YMM6" | .YMM7 => "YMM7" | .YMM8 => "YMM8" | .YMM9 => "YMM9" | .YMM10 => "YMM10"
  | .YMM11 => "YMM11" | .YMM12 => "YMM12" | .YMM13 => "YMM13" | .YMM14 => "YMM14" | .YMM15 => "YMM15"
  | .DR0 => "DR0" | .DR1 => "DR1" | .DR2 => "DR2" | .DR3 => "DR3" | .DR4 => "DR4" | .DR5 => "DR5"
  | .DR6 => "DR6" | .DR7 => "DR7" | .DR8 => "DR8" | .DR9 => "DR9" | .DR10 => "DR10" | .DR11 => "DR11"
  | .DR12 => "DR12" | .DR13 => "DR13" | .DR14 => "DR14" | .DR15 => "DR15" | .CR0 => "CR0" | .CR1 => "CR1"
  | .CR2 => "CR2" | .CR3 => "CR3" | .CR4 => "CR4" | .CR5 => "CR5" | .CR6 => "CR6" | .CR7 => "CR7"
  | .CR8 => "CR8" | .CR9 => "CR9" | .CR10 => "CR10" | .CR11 => "CR11" | .CR12 => "CR12" | .CR13 => "CR13"
  | .CR14 => "CR14" | .CR15 => "CR15"

def Register.width : Register → Nat
  | .none => 0
  | .RAX | .RBX | .RCX | .RDX | .RDI | .RSI | .RSP | .RBP | .R8 | .R9 | .R10 | .R11 | .R12 | .R13 | .R14 | .R15
  | .MMX0 | .MMX1 | .MMX2 | .MMX3 | .MMX4 | .MMX5 | .MMX6 | .MMX7 => 64
  | .EAX | .EBX | .ECX | .EDX | .EDI | .ESI | .ESP | .EBP | .R8D | .R9D | .R10D | .R11D | .R12D | .R13D | .R14D
  | .R15D | .MM0 | .MM1 | .MM2 | .MM3 | .MM4 | .MM5 | .MM6 | .MM7 | .DR0 | .DR1 | .DR2 | .DR3 | .DR4 | .DR5
  | .DR6 | .DR7 | .DR8 | .DR9 | .DR10 | .DR11 | .DR12 | .DR13 | .DR14 | .DR15 | .CR0 | .CR1 | .CR2 | .CR3 | .CR4
  | .CR5 | .CR6 | .CR7 | .CR8 | .CR9 | .CR10 | .CR11 | .CR12 | .CR13 | .CR14 | .CR15 => 32
  | .AX | .BX | .CX | .DX | .DI | .SI | .SP | .BP | .R8W | .R9W | .R10W | .R11W | .R12W | .R13W | .R14W | .R15W
  | .ES | .GS | .DS | .SS | .CS | .FS => 16
  | .AL | .BL | .CL | .DL | .SPL | .BPL | .SIL | .DIL | .R8B | .R9B | .R10B | .R11B | .R12B | .R13B | .R14B
  | .R15B | .AH | .BH | .CH | .DH => 8
  | .ST0 | .ST1 | .ST2 | .ST3 | .ST4 | .ST5 | .ST6 | .ST7 => 80
  | .XMM0 | .XMM1 | .XMM2 | .XMM3 | .XMM4 | .XMM5 | .XMM6 | .XMM7 | .XMM8 | .XMM9 | .XMM10 | .XMM11 | .XMM12
  | .XMM13 | .XMM14 | .XMM15 => 128
  | .YMM0 | .YMM1 | .YMM2 | .YMM3 | .YMM4 | .YMM5 | .YMM6 | .YMM7 | .YMM8 | .YMM9 | .YMM10 | .YMM11 | .YMM12
  | .YMM13 | .YMM14 | .YMM15 => 256

inductive AddressingMethod where
  | none | A | B | C | D | E | G | H | I | J | L | M | N | O | P | Q | R | S | U | V | W
  deriving DecidableEq, Repr

def AddressingMethod.debug : AddressingMethod → String
  | .none => "None" | .A => "A" | .B => "B" | .C => "C" | .D => "D" | .E => "E" | .G => "G" | .H => "H"
  | .I => "I" | .J => "J" | .L => "L" | .M => "M" | .N => "N" | .O => "O" | .P => "P" | .Q => "Q" | .R => "R"
  | .S => "S" | .U => "U" | .V => "V" | .W => "W"

inductive OperandType where
  | none | a | b | d | dq | p | pd | pi | ps | q | qq | s | sd | ss | v | w | x | y | z | AX | DX | AL | CL
  | ALR8B | BLR11B | CLR9B | DLR10B | AHR12B | BHR15B | CHR13B | DHR14B | rAX | rBX | rCX | rDX | rDI | rSI
  | rSP | rBP | rAXr8 | rCXr9 | rDXr10 | rBXr11 | rSPr12 | rBPr13 | rSIr14 | rDIr15 | eAX | eBX | eCX | eDX
  | eDI | eSI | eSP | eBP | ST0 | ST1 | ST2 | ST3 | ST4 | ST5 | ST6 | ST7 | ES | GS | DS | SS | CS | FS | one
  deriving DecidableEq, Repr

def OperandType.debug : OperandType → String
  | .none => "None" | .a => "a" | .b => "b" | .d => "d" | .dq => "dq" | .p => "p" | .pd => "pd" | .pi => "pi"
  | .ps => "ps" | .q => "q" | .qq => "qq" | .s => "s" | .sd => "sd" | .ss => "ss" | .v => "v" | .w => "w"
  | .x => "x" | .y => "y" | .z => "z" | .AX => "AX" | .DX => "DX" | .AL => "AL" | .CL => "CL"
  | .ALR8B => "ALR8B" | .BLR11B => "BLR11B" | .CLR9B => "CLR9B" | .DLR10B => "DLR10B" | .AHR12B => "AHR12B"
  | .BHR15B => "BHR15B" | .CHR13B => "CHR13B" | .DHR14B => "DHR14B" | .rAX => "rAX" | .rBX => "rBX"
  | .rCX => "rCX" | .rDX => "rDX" | .rDI => "rDI" | .rSI => "rSI" | .rSP => "rSP" | .rBP => "rBP"
  | .rAXr8 => "rAXr8" | .rCXr9 => "rCXr9" | .rDXr10 => "rDXr10" | .rBXr11 => "rBXr11" | .rSPr12 => "rSPr12"
  | .rBPr13 => "rBPr13" | .rSIr14 => "rSIr14" | .rDIr15 => "rDIr15" | .eAX => "eAX" | .eBX => "eBX"
  | .eCX => "eCX" | .eDX => "eDX" | .eDI => "eDI" | .eSI => "eSI" | .eSP => "eSP" | .eBP => "eBP"
  | .ST0 => "ST0" | .ST1 => "ST1" | .ST2 => "ST2" | .ST3 => "ST3" | .ST4 => "ST4" | .ST5 => "ST5"
  | .ST6 => "ST6" | .ST7 => "ST7" | .ES => "ES" | .GS => "GS" | .DS => "DS" | .SS => "SS" | .CS => "CS"
  | .FS => "FS" | .one => "one"

structure OperandSpec where
  method : AddressingMethod
  type : OperandType
  deriving DecidableEq, Repr

def OperandSpec.debug (spec : OperandSpec) : String :=
  "OperandSpec(" ++ spec.method.debug ++ ", " ++ spec.type.debug ++ ")"

/-- Widths are in bits. A displacement carries its own. -/
inductive Operand where
  | register (reg : Register)
  | immediate (value : UInt64) (width : Nat)
  | indirect (seg : SegmentOverride) (base index : Register) (scale : Nat) (disp : UInt64 × Nat) (width : Nat)
  | address (seg : SegmentOverride) (base index : Register) (scale : Nat) (disp : UInt64 × Nat)
  | optional
  deriving DecidableEq, Repr

def hex (value : UInt64) : String := "0x" ++ digits 16 value.toNat

/-- A number cut to its low `width` bits. -/
def truncate (value : UInt64) (width : Nat) : UInt64 := if width < 64 then value % (1 <<< width.toUInt64) else value

def displayAddress (seg : SegmentOverride) (base index : Register) (scale : Nat) (disp : UInt64 × Nat) : String :=
  let opening := match seg with
    | .none => "["
    | .cs => "cs:["
    | .ds => "ds:["
    | .es => "es:["
    | .fs => "fs:["
    | .gs => "gs:["
    | .ss => "ss:["
  let scaled := 0 < scale ∧ index ≠ .none
  let indexed :=
    if scaled then (if base ≠ .none then "+" else "") ++ index.name ++ "*" ++ digits 10 scale else ""
  let displaced :=
    if disp.1 = 0 then ""
    else if disp.1 &&& 0x8000000000000000 ≠ 0 then
      "-" ++ hex (truncate ((disp.1 ^^^ 0xffffffffffffffff) + 1) disp.2)
    else (if base ≠ .none ∨ scaled then "+" else "") ++ hex (truncate disp.1 disp.2)
  opening ++ base.name ++ indexed ++ displaced ++ "]"

def displayIndirect (seg : SegmentOverride) (base index : Register) (scale : Nat) (disp : UInt64 × Nat)
    (width : Nat) : String :=
  let size := match width with
    | 8 => "BYTE"
    | 16 => "WORD"
    | 32 => "DWORD"
    | 64 => "QWORD"
    | _ => "UNK"
  size ++ " PTR " ++ displayAddress seg base index scale disp

def sizedRegister (opsz : Nat) (long double word : Register) : Except String Operand :=
  match opsz with
  | 64 => .ok (.register long)
  | 32 => .ok (.register double)
  | 16 => .ok (.register word)
  | _ => .error "Invalid OperandType value"

def narrowRegister (opsz : Nat) (double word : Register) : Except String Operand :=
  match opsz with
  | 32 => .ok (.register double)
  | 16 => .ok (.register word)
  | _ => .error "Invalid OperandType value"

def readSpecRegister (op : OperandType) (opsz : Nat) (rexB : Bool) : Except String Operand :=
  match op with
  | .AX => .ok (.register .AX)
  | .DX => .ok (.register .DX)
  | .AL => .ok (.register .AL)
  | .CL => .ok (.register .CL)
  | .ALR8B => .ok (.register (if rexB then .R8B else .AL))
  | .CLR9B => .ok (.register (if rexB then .R9B else .CL))
  | .DLR10B => .ok (.register (if rexB then .R10B else .DL))
  | .BLR11B => .ok (.register (if rexB then .R11B else .BL))
  | .AHR12B => .ok (.register (if rexB then .R12B else .AH))
  | .CHR13B => .ok (.register (if rexB then .R13B else .CH))
  | .DHR14B => .ok (.register (if rexB then .R14B else .DH))
  | .BHR15B => .ok (.register (if rexB then .R15B else .BH))
  | .ES => .ok (.register .ES)
  | .FS => .ok (.register .FS)
  | .GS => .ok (.register .GS)
  | .SS => .ok (.register .SS)
  | .CS => .ok (.register .CS)
  | .DS => .ok (.register .DS)
  | .ST0 => .ok (.register .ST0)
  | .ST1 => .ok (.register .ST1)
  | .ST2 => .ok (.register .ST2)
  | .ST3 => .ok (.register .ST3)
  | .ST4 => .ok (.register .ST4)
  | .ST5 => .ok (.register .ST5)
  | .ST6 => .ok (.register .ST6)
  | .ST7 => .ok (.register .ST7)
  | .rAX => sizedRegister opsz .RAX .EAX .AX
  | .rBX => sizedRegister opsz .RBX .EBX .BX
  | .rCX => sizedRegister opsz .RCX .ECX .CX
  | .rDX => sizedRegister opsz .RDX .EDX .DX
  | .rDI => sizedRegister opsz .RDI .EDI .DI
  | .rSI => sizedRegister opsz .RSI .ESI .SI
  | .rSP => sizedRegister opsz .RSP .ESP .SP
  | .rBP => sizedRegister opsz .RBP .EBP .BP
  | .eAX => narrowRegister opsz .EAX .AX
  | .eBX => narrowRegister opsz .EBX .BX
  | .eCX => narrowRegister opsz .ECX .CX
  | .eDX => narrowRegister opsz .EDX .DX
  | .eDI => narrowRegister opsz .EDI .DI
  | .eSI => narrowRegister opsz .ESI .SI
  | .eSP => narrowRegister opsz .ESP .SP
  | .eBP => narrowRegister opsz .EBP .BP
  | .rAXr8 => if rexB then sizedRegister opsz .R8 .R8D .R8W else sizedRegister opsz .RAX .EAX .AX
  | .rCXr9 => if rexB then sizedRegister opsz .R9 .R9D .R9W else sizedRegister opsz .RCX .ECX .CX
  | .rDXr10 => if rexB then sizedRegister opsz .R10 .R10D .R10W else sizedRegister opsz .RDX .EDX .DX
  | .rBXr11 => if rexB then sizedRegister opsz .R11 .R11D .R11W else sizedRegister opsz .RBX .EBX .BX
  | .rSPr12 => if rexB then sizedRegister opsz .R12 .R12D .R12W else sizedRegister opsz .RSP .ESP .SP
  | .rBPr13 => if rexB then sizedRegister opsz .R13 .R13D .R13W else sizedRegister opsz .RBP .EBP .BP
  | .rSIr14 => if rexB then sizedRegister opsz .R14 .R14D .R14W else sizedRegister opsz .RSI .ESI .SI
  | .rDIr15 => if rexB then sizedRegister opsz .R15 .R15D .R15W else sizedRegister opsz .RDI .EDI .DI
  | _ => .error "Invalid OperandType value"

/-- Looks a register number up in the bank for an operand size. -/
def bankRegister (bank : List Register) (reg : UInt8) (kind : String) (opsz : Nat) : Except String Operand :=
  match bank[reg.toNat]? with
  | some found => .ok (.register found)
  | none => .error ("Invalid " ++ kind ++ " value " ++ digits 2 reg.toNat ++ " (" ++ digits 10 opsz ++ " bits)")

def readRegister (reg : UInt8) (rexPresent : Bool) (opsz : Nat) : Except String Operand :=
  let bank : List Register := match opsz with
    | 8 =>
      [.AL, .CL, .DL, .BL] ++ (if rexPresent then [.SPL, .BPL, .SIL, .DIL] else [.AH, .CH, .DH, .BH]) ++
        [.R8B, .R9B, .R10B, .R11B, .R12B, .R13B, .R14B, .R15B]
    | 16 => [.AX, .CX, .DX, .BX, .SP, .BP, .SI, .DI, .R8W, .R9W, .R10W, .R11W, .R12W, .R13W, .R14W, .R15W]
    | 32 => [.EAX, .ECX, .EDX, .EBX, .ESP, .EBP, .ESI, .EDI, .R8D, .R9D, .R10D, .R11D, .R12D, .R13D, .R14D, .R15D]
    | 64 => [.RAX, .RCX, .RDX, .RBX, .RSP, .RBP, .RSI, .RDI, .R8, .R9, .R10, .R11, .R12, .R13, .R14, .R15]
    | 80 => [.ST0, .ST1, .ST2, .ST3, .ST4, .ST5, .ST6, .ST7]
    | _ => []
  bankRegister bank reg "reg" opsz

def readSimdRegister (reg : UInt8) (_rexPresent : Bool) (opsz : Nat) : Except String Operand :=
  let bank : List Register := match opsz with
    | 32 =>
      [.MM0, .MM1, .MM2, .MM3, .MM4, .MM5, .MM6, .MM7, .MM0, .MM1, .MM2, .MM3, .MM4, .MM5, .MM6, .MM7]
    | 64 =>
      [.MMX0, .MMX1, .MMX2, .MMX3, .MMX4, .MMX5, .MMX6, .MMX7, .MMX0, .MMX1, .MMX2, .MMX3, .MMX4, .MMX5, .MMX6,
        .MMX7]
    | 128 =>
      [.XMM0, .XMM1, .XMM2, .XMM3, .XMM4, .XMM5, .XMM6, .XMM7, .XMM8, .XMM9, .XMM10, .XMM11, .XMM12, .XMM13,
        .XMM14, .XMM15]
    | 256 =>
      [.YMM0, .YMM1, .YMM2, .YMM3, .YMM4, .YMM5, .YMM6, .YMM7, .YMM8, .YMM9, .YMM10, .YMM11, .YMM12, .YMM13,
        .YMM14, .YMM15]
    | _ => []
  bankRegister bank reg "simd reg" opsz

def readCtrlRegister (reg : UInt8) (opsz : Nat) : Except String Operand :=
  let bank : List Register := match opsz with
    | 32 =>
      [.CR0, .CR1, .CR2, .CR3, .CR4, .CR5, .CR6, .CR7, .CR8, .CR9, .CR10, .CR11, .CR12, .CR13, .CR14, .CR15]
    | _ => []
  bankRegister bank reg "ctrl reg" opsz

def readDebugRegister (reg : UInt8) (opsz : Nat) : Except String Operand :=
  let bank : List Register := match opsz with
    | 32 =>
      [.DR0, .DR1, .DR2, .DR3, .DR4, .DR5, .DR6, .DR7, .DR8, .DR9, .DR10, .DR11, .DR12, .DR13, .DR14, .DR15]
    | _ => []
  bankRegister bank reg "debug reg" opsz

def signExtU8 (val : UInt8) (w : Nat) : UInt64 :=
  match w with
  | 8 => val.toUInt64
  | 16 => val.toInt8.toInt16.toInt64.toUInt64
  | 32 => val.toInt8.toInt32.toInt64.toUInt64
  | _ => val.toInt8.toInt64.toUInt64

def signExtU32 (val : UInt32) (w : Nat) : UInt64 :=
  match w with
  | 8 => (val &&& 0xff).toUInt64
  | 16 => (val &&& 0xffff).toUInt64
  | 32 => val.toUInt64
  | _ => val.toInt32.toInt64.toUInt64

structure Rex where
  w : Bool
  r : Bool
  x : Bool
  b : Bool
  deriving DecidableEq, Repr

/-- The three fields of a ModRM byte, as extended by a REX prefix. -/
structure ModRM where
  mod : UInt8
  reg : UInt8
  rm : UInt8
  deriving DecidableEq, Repr

/-- What was read after the opcode so far: both bytes are read at most once. -/
structure Tail where
  modrm : Option ModRM
  sib : Option Operand
  deriving DecidableEq, Repr

/-- Reads the bytes after the opcode. -/
abbrev TailReader := Reader String UInt8 Tail

def littleEndian (bytes : List UInt8) : UInt64 := bytes.foldr (fun byte rest => byte.toUInt64 + 256 * rest) 0

/-- An unsigned number of `count` bytes. -/
def readUnsigned (count : Nat) : TailReader UInt64 := do
  let bytes ← Reader.take "failed to fill whole buffer" count
  return littleEndian bytes

def modrmFields (rex : Option Rex) (modrm : UInt8) : ModRM :=
  let mod := modrm >>> 6
  let reg := (modrm >>> 3) &&& 0b111
  let rm := modrm &&& 0b111
  let sibPresent := mod ≠ 0b11 ∧ rm = 0b100
  match rex with
  | none => ⟨mod, reg, rm⟩
  | some rex => ⟨mod, if rex.r then reg ||| 0b1000 else reg, if rex.b ∧ ¬sibPresent then rm ||| 0b1000 else rm⟩

def readModrm (rex : Option Rex) : TailReader ModRM := do
  let modrm ← readUnsigned 1
  return modrmFields rex modrm.toUInt8

def sibBase (mod base : UInt8) (rexPresent : Bool) (addrsz : Nat) : TailReader (Register × UInt64 × Nat) :=
  if mod ≠ 0b11 ∧ base &&& 0b111 = 0b101 then
    match mod with
    | 0b00 => do
      let disp ← readUnsigned 4
      return (.none, signExtU32 disp.toUInt32 addrsz, 32)
    | 0b01 | 0b10 => pure (if addrsz = 32 then .EBP else .RBP, 0, addrsz)
    | _ => Reader.fail "Internal error"
  else match readRegister base rexPresent addrsz with
    | .ok (.register r) => pure (r, 0, addrsz)
    | _ => Reader.fail "Failed to decode base register"

def sibIndex (index : UInt8) (rexPresent : Bool) (addrsz : Nat) : Except String Register :=
  if index &&& 0b111 = 0b100 then .ok .none
  else match readRegister index rexPresent addrsz with
    | .ok (.register r) => .ok r
    | _ => .error "Failed to decode index register"

/-- The address a SIB byte stands for. Its displacement, unless it has no base, is left to the caller. -/
def readSib (mod : UInt8) (seg : SegmentOverride) (rex : Option Rex) (addrsz : Nat) : TailReader Operand := do
  let sib := (← readUnsigned 1).toUInt8
  let scale := sib >>> 6
  let extended := fun (bits : UInt8) (flag : Rex → Bool) =>
    if mod ≠ 0b11 ∧ (rex.map flag).getD false then bits ||| 0b1000 else bits
  let (retBase, retDisp) ← sibBase mod (extended (sib &&& 0b111) Rex.b) rex.isSome addrsz
  let retIndex ← Reader.ofExcept (sibIndex (extended ((sib >>> 3) &&& 0b111) Rex.x) rex.isSome addrsz)
  return .address seg retBase retIndex (2 ^ scale.toNat) retDisp

namespace Tail

def fetchModrm (rex : Option Rex) : TailReader ModRM := do
  match (← Reader.notes).modrm with
  | some modrm => return modrm
  | none =>
    let modrm ← readModrm rex
    Reader.note fun tail => { tail with modrm := some modrm }
    return modrm

def fetchSib (mod : UInt8) (seg : SegmentOverride) (rex : Option Rex) (addrsz : Nat) : TailReader Operand := do
  match (← Reader.notes).sib with
  | some sib => return sib
  | none =>
    let sib ← readSib mod seg rex addrsz
    Reader.note fun tail => { tail with sib := some sib }
    return sib

end Tail

def readMemory (op : Operand) (seg : SegmentOverride) (width : Nat) : Except String Operand :=
  match op with
  | .register reg => .ok (.indirect seg reg .none 0 (0, 0) width)
  | .immediate imm w => .ok (.indirect seg .none .none 0 (imm, w) width)
  | .address seg base index scale disp => .ok (.indirect seg base index scale disp width)
  | .indirect .. => .error "Tried to contruct doubly indirect operand"
  | .optional => .error "Tried to use and optional operand as address"

def indirect (op : Operand) (seg : SegmentOverride) (width : Nat) : Except String Operand :=
  match op with
  | .address .. => readMemory op seg width
  | op => .ok op

/-- What an operand is read under. `addr` is the address of the byte after the opcode. -/
structure Context where
  mode : Mode
  seg : SegmentOverride
  vvvv : Option UInt8
  rex : Option Rex
  opsz : Nat
  addrsz : Nat
  simdsz : Nat
  addr : UInt64
  deriving DecidableEq, Repr

namespace Context

def displaced (c : Context) (rm : UInt8) (failure : String) (disp : TailReader UInt64) : TailReader Operand :=
  match readRegister rm c.rex.isSome c.addrsz with
  | .ok (.register reg) => do return .address c.seg reg .none 0 (← disp, c.addrsz)
  | _ => Reader.fail failure

/-- The address of a SIB byte, with the displacement that follows it. -/
def scaledBy (c : Context) (mod : UInt8) (failure : String) (disp : TailReader UInt64) (width : Nat) :
    TailReader Operand := do
  match ← Tail.fetchSib mod c.seg c.rex c.addrsz with
  | .address seg base index scale _ => return .address seg base index scale (← disp, width)
  | _ => Reader.fail failure

def disp8 (w : Nat) : TailReader UInt64 := do return signExtU8 (← readUnsigned 1).toUInt8 w

def disp32 (w : Nat) : TailReader UInt64 := do return signExtU32 (← readUnsigned 4).toUInt32 w

def readEffectiveSimdAddress (c : Context) (simdsz : Nat) : TailReader Operand := do
  let modrm ← Tail.fetchModrm c.rex
  match modrm.mod, modrm.rm &&& 0b111 with
  | 0b00, 0b100 => Tail.fetchSib modrm.mod c.seg c.rex c.addrsz
  | 0b00, 0b101 =>
    let disp ← disp32 c.addrsz
    return .address c.seg .none .none 0 (if c.mode = .longMode then c.addr + disp else disp, c.addrsz)
  | 0b00, _ => Reader.ofExcept (readSimdRegister modrm.rm c.rex.isSome c.addrsz)
  | 0b01, 0b100 =>
    c.scaledBy modrm.mod "Internal error: read_sib did not return indirect operand" (disp8 c.opsz) c.addrsz
  | 0b01, _ => c.displaced modrm.rm "Failed to decode SIB byte" (disp8 c.addrsz)
  | 0b10, 0b100 =>
    c.scaledBy modrm.mod "Internal error: read_sib did not return indirect operand" (disp32 c.addrsz) 32
  | 0b10, _ => c.displaced modrm.rm "Failed to decode SIB byte" (disp32 c.addrsz)
  | 0b11, _ => Reader.ofExcept (readSimdRegister modrm.rm c.rex.isSome simdsz)
  | _, _ => Reader.fail "Invalid mod value"

def readEffectiveAddress (c : Context) (opsz : Nat) : TailReader Operand := do
  let modrm ← Tail.fetchModrm c.rex
  match modrm.mod, modrm.rm &&& 0b111 with
  | 0b00, 0b100 => Tail.fetchSib modrm.mod c.seg c.rex c.addrsz
  | 0b00, 0b101 =>
    let imm ← disp32 c.addrsz
    let len ← Reader.position
    return .address c.seg .none .none 0 (if c.mode = .longMode then c.addr + len.toUInt64 + imm else imm, 32)
  | 0b00, _ => Reader.ofExcept (readRegister modrm.rm c.rex.isSome c.addrsz)
  | 0b01, 0b100 =>
    -- an error of the SIB byte is replaced here, the one of the displacement after it is not
    match ← Reader.mapError "Failed to decode SIB byte" (Tail.fetchSib modrm.mod c.seg c.rex c.addrsz) with
    | .address seg base index scale _ => return .address seg base index scale (← disp8 c.addrsz, c.addrsz)
    | _ => Reader.fail "Failed to decode SIB byte: No Address"
  | 0b01, _ => c.displaced modrm.rm "Failed to decode r/m byte" (disp8 c.addrsz)
  | 0b10, 0b100 =>
    c.scaledBy modrm.mod "Internal error: read_sib did not return indirect operand" (disp32 c.addrsz) 32
  | 0b10, _ => c.displaced modrm.rm "Failed to decode SIB byte" (disp32 c.addrsz)
  | 0b11, _ => Reader.ofExcept (readRegister modrm.rm c.rex.isSome opsz)
  | _, _ => Reader.fail "Invalid mod value"

end Context

/-- What the bytes after the opcode hold for one operand. -/
inductive Form where
  /-- Nothing: the operand is part of the opcode, or cannot be decoded. -/
  | given (operand : Except String Operand)
  /-- An immediate of `count` bytes that has to be there. -/
  | immediate (count : Nat) (value : UInt64 → UInt64) (width : Nat)
  /-- Two immediates in a row that have to be there. -/
  | far (first second : Nat) (value : UInt64 → UInt64 → UInt64) (width : Nat)
  /-- A register number in an immediate byte that has to be there. -/
  | selector (decode : UInt8 → Except String Operand)
  /-- An absolute address of `count` bytes that has to be there. -/
  | offset (count width : Nat)
  /-- A register number in a field of the ModRM byte, which has to be there. -/
  | field (pick : ModRM → UInt8) (decode : UInt8 → Except String Operand)
  | address (size : Nat)
  | effective (size : Nat)
  | effectiveSimd (size width : Nat)

namespace Context

def general (c : Context) (width : Nat) : Form := .field ModRM.reg (readRegister · c.rex.isSome width)

def simd (c : Context) (pick : ModRM → UInt8) (width : Nat) : Form :=
  .field pick (readSimdRegister · c.rex.isSome width)

def cantDecode (c : Context) (spec : OperandSpec) : Form :=
  .given (.error ("can't decode " ++ spec.debug ++ "/" ++ digits 10 c.opsz))

def form (c : Context) (spec : OperandSpec) : Form :=
  match spec.method, spec.type with
  | .none, reg => .given (readSpecRegister reg c.opsz ((c.rex.map Rex.b).getD false))
  | .A, .v =>
    match c.opsz with
    | 16 => .immediate 2 id 16
    | 32 => .immediate 4 id 32
    | 64 => .immediate 8 id 64
    | _ => c.cantDecode spec
  | .A, .p =>
    match c.opsz with
    | 16 => .immediate 4 id 32
    | 32 => .far 2 4 (fun imm16 imm32 => (imm16 <<< 32) ||| imm32) 48
    | 64 => .far 2 8 (fun _ imm64 => imm64) 64
    | _ => c.cantDecode spec
  | .B, .y =>
    match c.vvvv with
    | some reg => .given (readRegister reg c.rex.isSome (max 32 c.opsz))
    | none => c.cantDecode spec
  | .C, .d => .field ModRM.reg (readCtrlRegister · 32)
  | .D, .d => .field ModRM.reg (readDebugRegister · 32)
  | .E, .v => .effective c.opsz
  | .E, .z => .effective (min 32 c.opsz)
  | .E, .y => .effective (max 32 c.opsz)
  | .E, .b => .effective 8
  | .E, .w => .effective 16
  | .E, .d => .effective 32
  | .E, .dq => .effective 64
  | .G, .dq => c.general 64
  | .G, .d => c.general 32
  | .G, .w => c.general 16
  | .G, .b => c.general 8
  | .G, .v => c.general c.opsz
  | .G, .z => c.general (min 32 c.opsz)
  | .G, .y => c.general (max 32 c.opsz)
  | .H, type =>
    match c.vvvv, type with
    | none, _ => .given (.ok .optional)
    | some reg, .x => .given (readSimdRegister reg c.rex.isSome c.opsz)
    | some reg, .qq => .given (readSimdRegister reg c.rex.isSome 256)
    | some reg, .ps | some reg, .pd => .given (readSimdRegister reg c.rex.isSome c.simdsz)
    | some reg, .dq | some reg, .ss | some reg, .sd => .given (readSimdRegister reg c.rex.isSome 128)
    | some _, _ => c.cantDecode spec
  | .I, .z => if c.opsz = 16 then .immediate 2 id 16 else .immediate 4 id 32
  | .I, .b => .immediate 1 (·.toUInt8.toInt8.toInt64.toUInt64) c.opsz
  | .I, .one => .given (.ok (.immediate 1 c.opsz))
  | .I, .w => .immediate 2 id 16
  | .I, .v =>
    match c.opsz with
    | 16 => .immediate 2 id 16
    | 32 => .immediate 4 id 32
    | 64 => .immediate 8 id 64
    | _ => c.cantDecode spec
  | .J, .b => .immediate 1 (fun imm => c.addr + imm.toUInt8.toInt8.toInt64.toUInt64 + 1) c.addrsz
  | .J, .z =>
    if c.opsz = 16 then .immediate 2 (fun imm => c.addr + imm.toUInt16.toInt16.toInt64.toUInt64 + 2) c.addrsz
    else .immediate 4 (fun imm => c.addr + imm.toUInt32.toInt32.toInt64.toUInt64 + 4) c.addrsz
  | .L, .x =>
    .selector fun reg => readSimdRegister (reg &&& if c.opsz = 32 then 0b0111 else 0b1111) c.rex.isSome c.simdsz
  | .M, .p =>
    match c.opsz with
    | 16 => .address 16
    | 32 => .address 32
    | 64 => .address 64
    | _ => c.cantDecode spec
  | .M, .w => .address 16
  | .M, .d => .address 32
  | .M, .q => .address 64
  | .M, .s => .address (if c.opsz = 64 then 80 else 48)
  | .M, .b => .address 8
  | .M, .none => .address c.opsz
  | .M, .a =>
    match c.opsz with
    | 32 => .address 64
    | 16 => .address 32
    | _ => c.cantDecode spec
  | .M, .y => .address (min 32 c.opsz)
  | .M, .x =>
    match c.opsz with
    | 32 => .address 128
    | 64 => .address 256
    | _ => c.cantDecode spec
  | .N, .q => c.simd ModRM.rm 64
  | .O, .b =>
    match c.addrsz with
    | 16 => .offset 2 8
    | 32 => .offset 4 8
    | 64 => .offset 8 8
    | _ => c.cantDecode spec
  | .O, .v =>
    match c.addrsz with
    | 16 => .offset 2 c.opsz
    | 32 => .offset 4 c.opsz
    | 64 => .offset 8 c.opsz
    | _ => c.cantDecode spec
  | .P, .pi | .P, .q => c.simd ModRM.reg 64
  | .P, .ps => c.simd ModRM.reg c.simdsz
  | .P, .d => c.simd ModRM.reg 32
  | .Q, .d | .Q, .q => .effectiveSimd 32 32
  | .Q, .pi => .effectiveSimd c.simdsz c.simdsz
  | .S, .w => .offset 2 16
  | .R, .d => .offset 2 32
  | .R, .q => .offset 2 64
  | .U, .ps | .U, .pd => c.simd ModRM.rm c.simdsz
  | .U, .pi | .U, .q => c.simd ModRM.rm 64
  | .U, .x =>
    match c.opsz with
    | 32 => c.simd ModRM.rm 128
    | 64 => c.simd ModRM.rm 256
    | _ => c.cantDecode spec
  | .U, .dq => c.simd ModRM.rm 128
  | .V, .pi | .V, .q => c.simd ModRM.reg 64
  | .V, .ps | .V, .pd => c.simd ModRM.reg c.simdsz
  | .V, .ss | .V, .dq | .V, .sd => c.simd ModRM.reg 128
  | .V, .x =>
    match c.opsz with
    | 32 => c.simd ModRM.reg 128
    | 64 => c.simd ModRM.reg 256
    | _ => c.cantDecode spec
  | .V, .qq => c.simd ModRM.reg 256
  | .V, .y => c.simd ModRM.reg (min 32 c.opsz)
  | .W, .pd | .W, .ps => .effectiveSimd c.simdsz c.simdsz
  | .W, .q => .effectiveSimd 64 64
  | .W, .d => .effectiveSimd 32 64
  | .W, .dq | .W, .sd | .W, .ss => .effectiveSimd 128 128
  | .W, .qq => .effectiveSimd 256 256
  | .W, .x =>
    match c.opsz with
    | 32 => .effectiveSimd 128 128
    | 64 => .effectiveSimd 256 256
    | _ => c.cantDecode spec
  | _, _ => c.cantDecode spec

def readForm (c : Context) : Form → TailReader Operand
  | .given operand => Reader.ofExcept operand
  | .immediate count value width => do
    let imm ← (readUnsigned count).unwrap
    return .immediate (value imm) width
  | .far first second value width => do
    let high ← (readUnsigned first).unwrap
    let low ← (readUnsigned second).unwrap
    return .immediate (value high low) width
  | .selector decode => do
    let imm ← (readUnsigned 1).unwrap
    Reader.ofExcept (decode imm.toUInt8)
  | .offset count width => do
    let imm ← (readUnsigned count).unwrap
    Reader.ofExcept (readMemory (.immediate imm c.addrsz) c.seg width)
  | .field pick decode => do
    let modrm ← (Tail.fetchModrm c.rex).unwrap
    Reader.ofExcept (decode (pick modrm))
  | .address size => c.readEffectiveAddress size
  | .effective size => do
    let op ← c.readEffectiveAddress size
    Reader.ofExcept (indirect op c.seg size)
  | .effectiveSimd size width => do
    let op ← c.readEffectiveSimdAddress size
    Reader.ofExcept (indirect op c.seg width)

def readOperand (c : Context) (spec : OperandSpec) : TailReader Operand := c.readForm (c.form spec)

end Context

/-- The value of an address, with the statements that compute it. -/
def addressToRreil (seg : SegmentOverride) (base index : Register) (scale : Nat) (disp : UInt64 × Nat) :
    Except String (Rvalue × List Statement) := do
  let out := displayAddress seg base index scale disp
  let w := index.width
  let bw := base.width
  let i : Rvalue := .var index.name none 0 w
  let start : Rvalue := if base ≠ .none then .var base.name none 0 bw else .undefined
  let (ret, stmts) ←
    if 0 < scale ∧ index ≠ .none then
      if base ≠ .none then do
        let stmts ← rreil
          [⟨.var "t" none w, .multiply (.constant scale.toUInt64 w) i⟩,
            ⟨.var "t1" none bw, .zeroExtend bw (.var "t" none 0 w)⟩,
            ⟨.var out none w, .add start (.var "t1" none 0 bw)⟩]
        pure (Rvalue.var out none 0 w, stmts)
      else do
        let stmts ← rreil [⟨.var out none w, .multiply i (.constant scale.toUInt64 w)⟩]
        pure (Rvalue.var out none 0 w, stmts)
    else pure (start, [])
  if disp.1 = 0 then return (ret, stmts)
  else if ret = .undefined then return (.constant disp.1 disp.2, stmts)
  else
    let w := ret.size.getD disp.2
    let more ← rreil
      [⟨.var "d" none w, .zeroExtend w (.constant disp.1 disp.2)⟩,
        ⟨.var out none w, .add ret (.var "d" none 0 w)⟩]
    return (.var out none 0 w, stmts ++ more)

/-- The value of an operand, the statements that read it and those that write it back. -/
def toRreil : Operand → Outcome String (Rvalue × List Statement × List Statement)
  | .register name => .returns (.var name.name none 0 name.width, [], [])
  | .immediate value size => .returns (.constant value size, [], [])
  | .indirect seg base index scale disp width => do
    let (tgt, rstmts) ← .ofExcept (addressToRreil seg base index scale disp)
    let ret : Lvalue := .var (displayIndirect seg base index scale disp width) none width
    if width ∈ [8, 16, 32, 64, 128, 256] then
      let load ← .ofExcept (rreil [⟨ret, .load "RAM" .little width tgt⟩])
      let store ← .ofExcept (rreil [⟨.undefined, .store "RAM" .little width tgt ret.toRvalue⟩])
      return (ret.toRvalue, rstmts ++ load, store)
    else .panics
  | .address seg base index scale disp => do
    let (ret, stmts) ← .ofExcept (addressToRreil seg base index scale disp)
    return (ret, stmts, [])
  | .optional => .returns (.undefined, [], [])

end Panopticon.Amd64
