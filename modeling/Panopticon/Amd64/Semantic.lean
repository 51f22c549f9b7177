import Panopticon.Amd64.Disassembler
import Panopticon.Evaluate

/-! RREIL code of amd64 opcodes: the helpers that set the flags and assign registers, the functions
of the opcodes that compute, move or jump, and the table of all functions by their names. -/

namespace Panopticon.Amd64.Semantic
open Panopticon.Library

def bit (name : String) (offset : Nat) : Rvalue := .var name none offset 1

/-- Sets the adjust flag AF after an addition. Assumes res := a + ?. -/
def setAdjFlag (res : Lvalue) (a : Rvalue) : Outcome String (List Statement) := do
  let low ← Outcome.unwrap (res.extract 4 0).toOption
  let lowA ← Outcome.unwrap (a.extract 4 0).toOption
  .ofExcept (rreil [
    ⟨.var "AF" none 1, .lessUnsigned low lowA⟩,
    ⟨.var "af1" none 1, .and (bit "af1" 0) (bit "AF" 0)⟩])

/-- Sets the adjust flag AF after a subtraction. Assumes res := a - ?. -/
def setSubAdjFlag (res : Lvalue) (a : Rvalue) : Outcome String (List Statement) := do
  let lowA ← Outcome.unwrap (a.extract 4 0).toOption
  let low ← Outcome.unwrap (res.extract 4 0).toOption
  .ofExcept (rreil [⟨.var "AF" none 1, .lessUnsigned lowA low⟩])

def setParityFlag (res : Lvalue) : Outcome String (List Statement) := do
  let low ← Outcome.unwrap (res.extract 8 0).toOption
  .ofExcept (rreil [
    ⟨.var "half_res" none 8, .move low⟩,
    ⟨.var "PF" none 1, .move (bit "half_res" 0)⟩,
    ⟨.var "PF" none 1, .exclusiveOr (bit "PF" 0) (bit "half_res" 1)⟩,
    ⟨.var "PF" none 1, .exclusiveOr (bit "PF" 0) (bit "half_res" 2)⟩,
    ⟨.var "PF" none 1, .exclusiveOr (bit "PF" 0) (bit "half_res" 3)⟩,
    ⟨.var "PF" none 1, .exclusiveOr (bit "PF" 0) (bit "half_res" 4)⟩,
    ⟨.var "PF" none 1, .exclusiveOr (bit "PF" 0) (bit "half_res" 5)⟩,
    ⟨.var "PF" none 1, .exclusiveOr (bit "PF" 0) (bit "half_res" 6)⟩,
    ⟨.var "PF" none 1, .exclusiveOr (bit "PF" 0) (bit "half_res" 7)⟩,
    ⟨.var "PF" none 1, .exclusiveOr (bit "PF" 0) (.constant 1 1)⟩])

/-- Sets the carry flag CF after an addition. Assumes res := a + ?. -/
def setCarryFlag (res : Lvalue) (a : Rvalue) : Outcome String (List Statement) :=
  .ofExcept (rreil [
    ⟨.var "cf1" none 1, .equal res.toRvalue a⟩,
    ⟨.var "cf2" none 1, .lessUnsigned res.toRvalue a⟩,
    ⟨.var "cf1" none 1, .and (bit "cf1" 0) (bit "CF" 0)⟩,
    ⟨.var "CF" none 1, .inclusiveOr (bit "cf1" 0) (bit "cf2" 0)⟩])

/-- Sets the carry flag CF after a subtraction. Assumes res := a + ?. -/
def setSubCarryFlag (res : Lvalue) (a : Rvalue) : Outcome String (List Statement) :=
  .ofExcept (rreil [
    ⟨.var "cf1" none 1, .equal res.toRvalue a⟩,
    ⟨.var "cf2" none 1, .lessUnsigned a res.toRvalue⟩,
    ⟨.var "cf1" none 1, .and (bit "cf1" 0) (bit "CF" 0)⟩,
    ⟨.var "CF" none 1, .inclusiveOr (bit "cf1" 0) (bit "cf2" 0)⟩])

def setOverflowFlag (res : Lvalue) (a b : Rvalue) (sz : Nat) : Outcome String (List Statement) :=
  let msb := sz - 1
  .ofExcept (rreil [
    ⟨.var "of1" none sz, .exclusiveOr a b⟩,
    ⟨.var "of1" none sz, .exclusiveOr (.var "of1" none 0 sz) (.constant 0xffffffffffffffff sz)⟩,
    ⟨.var "of2" none sz, .exclusiveOr a res.toRvalue⟩,
    ⟨.var "OF" none 1, .and (bit "of1" msb) (bit "of2" msb)⟩])

def setSubOverflowFlag (res : Lvalue) (a b : Rvalue) (sz : Nat) : Outcome String (List Statement) :=
  let msb := sz - 1
  .ofExcept (rreil [
    ⟨.var "of1" none sz, .exclusiveOr a b⟩,
    ⟨.var "of2" none sz, .exclusiveOr b res.toRvalue⟩,
    ⟨.var "of2" none sz, .exclusiveOr (.var "of2" none 0 sz) (.constant 0xffffffffffffffff sz)⟩,
    ⟨.var "OF" none 1, .and (bit "of1" msb) (bit "of2" msb)⟩])

/-- An operand under the common size, with a variable of its own if it has another one. -/
def extended (x : Rvalue) (s : Nat) : Rvalue :=
  match x with
  | .undefined => .undefined
  | .var name _ offset size => if size ≠ s then .var (name ++ "_ext") none offset (s + offset) else x
  | .constant value size => if size ≠ s then .constant value s else x

def extend (a b : Rvalue) (signExt : Bool) : Outcome String (Rvalue × Rvalue × Nat × List Statement) := do
  let sz := max (a.size.getD 0) (b.size.getD 0)
  let extA := extended a sz
  let extB := extended b sz
  if sz = 0 then .panics
  else if ¬(extA.size = none ∨ extB.size = none ∨ extA.size = extB.size) then .panics
  else
    -- what is extended is `a`, for both operands
    let conversion := if signExt then Operation.signExtend sz a else .zeroExtend sz a
    let convert := fun (x ext : Rvalue) => match if x.size ≠ ext.size then Lvalue.fromRvalue ext else none with
      | some lv => rreil [⟨lv, conversion⟩]
      | none => .ok []
    let first ← .ofExcept (convert a extA)
    let second ← .ofExcept (convert b extB)
    return (extA, extB, sz, first ++ second)

/-- Sign extends `a` and `b` to `max(a.size,b.size)`. -/
def signExtend (a b : Rvalue) : Outcome String (Rvalue × Rvalue × Nat × List Statement) := extend a b true

def zeroExtend (a b : Rvalue) : Outcome String (Rvalue × Rvalue × Nat × List Statement) := extend a b false

/-- The sub- and super registers of a register. -/
structure Variants where
  reg8l : Lvalue
  reg8h : Lvalue
  reg16 : Lvalue
  reg32 : Lvalue
  reg64 : Lvalue
  deriving DecidableEq, Repr

/-- Five registers by their names; the first two need not exist. -/
def Variants.named (low high word double long : String) : Variants where
  reg8l := if low = "" then .undefined else .var low none 8
  reg8h := if high = "" then .undefined else .var high none 8
  reg16 := .var word none 16
  reg32 := .var double none 32
  reg64 := .var long none 64

def registerFamilies : List (List String × Variants) := [
  (["AL", "AH", "AX", "EAX", "RAX"], .named "AL" "AH" "AX" "EAX" "RAX"),
  (["BL", "BH", "BX", "EBX", "RBX"], .named "BL" "BH" "BX" "EBX" "RBX"),
  (["CL", "CH", "CX", "ECX", "RCX"], .named "CL" "CH" "CX" "ECX" "RCX"),
  (["DL", "DH", "DX", "EDX", "RDX"], .named "DL" "DH" "DX" "EDX" "RDX"),
  (["SIL", "SIH", "SI", "ESI", "RSI"], .named "SIL" "SIH" "SI" "ESI" "RSI"),
  (["DIL", "DIH", "DI", "EDI", "RDI"], .named "DIL" "DIH" "DI" "EDI" "RDI"),
  (["BPL", "BP", "EBP", "RBP"], .named "BPL" "" "BP" "EBP" "RBP"),
  (["SPL", "SP", "ESP", "RSP"], .named "SPL" "" "SP" "ESP" "RSP"),
  (["IP", "EIP", "RIP"], .named "" "" "IP" "EIP" "RIP"),
  (["R8B", "R8W", "R8D", "R8"], .named "R8B" "" "R8W" "R8D" "R8"),
  (["R9B", "R9W", "R9D", "R9"], .named "R9B" "" "R9W" "R9D" "R9"),
  (["R10B", "R10W", "R10D", "R10"], .named "R10B" "" "R10W" "R10D" "R10"),
  (["R11B", "R11W", "R11D", "R11"], .named "R11B" "" "R11W" "R11D" "R11"),
  (["R12B", "R12W", "R12D", "R12"], .named "R12B" "" "R12W" "R12D" "R12"),
  (["R13B", "R13W", "R13D", "R13"], .named "R13B" "" "R13W" "R13D" "R13"),
  (["R14B", "R14W", "R14D", "R14"], .named "R14B" "" "R14W" "R14D" "R14"),
  (["R15B", "R15W", "R15D", "R15"], .named "R15B" "" "R15W" "R15D" "R15")]

/-- Returns all sub- and super registers for `name` or none if `name` isn't a register. -/
def regVariants (name : String) : Option Variants :=
  (registerFamilies.find? fun family => name ∈ family.1).map Prod.snd

/-- Assigns the bits of `val` that lie in `reg`, under the mask of the bits that stay. -/
def writePart (reg : Lvalue) (val : Rvalue) (msk full : UInt64) (size : Nat) : Except String (List Statement) :=
  if msk = 0 then rreil [⟨reg, .move val⟩]
  else if msk < full then
    rreil [⟨reg, .and reg.toRvalue (.constant msk size)⟩, ⟨reg, .inclusiveOr reg.toRvalue val⟩]
  else .ok []

/-- The bits of a register of `size` bits that a write to the bits `lo` up to `hi` keeps. -/
def keepMask (full : UInt64) (size lo hi : Nat) : UInt64 :=
  ~~~((full <<< lo.toUInt64) % (1 <<< (min size hi).toUInt64)) &&& full

def keepLongMask (lo hi : Nat) : UInt64 :=
  let full : UInt64 := 0xffffffffffffffff
  if hi < 64 then ~~~((full <<< lo.toUInt64) % (1 <<< hi.toUInt64)) else ~~~(full <<< lo.toUInt64)

def loadValue (lo hi : Nat) (val : Rvalue) : Except String (List Statement) :=
  if lo = 0 ∧ hi = 64 ∧ val.size = some 64 then rreil [⟨.var "val" none 64, .move val⟩]
  else rreil [⟨.var "val" none 64, .zeroExtend 64 val⟩]

def shiftValue (lo : Nat) : Except String (List Statement) :=
  let shft : UInt64 := ((1 : Int32) <<< Int32.ofNat lo).toInt64.toUInt64
  if 0 < lo then rreil [⟨.var "val" none 64, .multiply (.var "val" none 0 64) (.constant shft 64)⟩]
  else .ok []

namespace Variants
variable (variants : Variants) (lo hi : Nat)

def writeLow : Except String (List Statement) :=
  if lo ≤ 7 then writePart variants.reg8l (.var "val" none 0 8) (keepMask 0xff 8 lo hi) 0xff 8 else .ok []

def writeHigh : Except String (List Statement) :=
  if 9 ≤ hi ∧ lo ≤ 15 ∧ variants.reg8h ≠ .undefined then
    writePart variants.reg8h (.var "val" none 8 8) (keepMask 0xffff 16 lo hi >>> 8) 0xff 8
  else .ok []

def writeWord : Except String (List Statement) :=
  if lo ≤ 15 then writePart variants.reg16 (.var "val" none 0 16) (keepMask 0xffff 16 lo hi) 0xffff 16 else .ok []

def writeDouble : Except String (List Statement) :=
  if lo ≤ 31 then
    writePart variants.reg32 (.var "val" none 0 32) (keepMask 0xffffffff 32 lo hi) 0xffffffff 32
  else .ok []

def writeLong : Except String (List Statement) :=
  let val : Rvalue := .var "val" none 0 64
  if lo ≤ 64 then
    if lo = 0 ∧ hi = 32 then rreil [⟨variants.reg64, .move val⟩]
    else writePart variants.reg64 val (keepLongMask lo hi) 0xffffffffffffffff 64
  else .ok []

/-- Assigns `val` to the bits `lo` up to `hi` of a register, in all registers that overlap it. -/
def write (val : Rvalue) : Except String (List Statement) := do
  let load ← loadValue lo hi val
  let shift ← shiftValue lo
  let low ← variants.writeLow lo hi
  let high ← variants.writeHigh lo hi
  let word ← variants.writeWord lo hi
  let double ← variants.writeDouble lo hi
  let long ← variants.writeLong lo hi
  return load ++ shift ++ low ++ high ++ word ++ double ++ long

end Variants

/-- Assigns `val` to `reg`. This function makes sure all that e.g. EAX is written when RAX is. -/
def writeReg (reg val : Rvalue) (_sz : Nat) : Outcome String (List Statement) :=
  match reg with
  | .var name _ offset size =>
    match regVariants name with
    | some variants =>
      let high := if reg = variants.reg8h.toRvalue then 8 else 0
      .ofExcept (variants.write (offset + high) (offset + size + high) val)
    | none => .ofExcept (rreil [⟨.var name none size, .move val⟩])
  | _ => .fails ("Internal error: called write_reg with " ++ reprStr reg)

def adc (a_ b_ : Rvalue) : Outcome String (List Statement × JumpSpec) := do
  let (a, b, sz, stmts) ← signExtend a_ b_
  let res : Lvalue := .var "res" none sz
  let low ← Outcome.unwrap (res.extract 4 0).toOption
  let lowA ← Outcome.unwrap (a.extract 4 0).toOption
  let sum ← .ofExcept (rreil [
    ⟨.var "res" none sz, .add a b⟩,
    ⟨.var "cf" none sz, .zeroExtend sz (bit "CF" 0)⟩,
    ⟨.var "res" none sz, .add (.var "res" none 0 sz) (.var "cf" none 0 sz)⟩,
    ⟨.var "SF" none 1, .lessSigned (.var "res" none 0 sz) (.constant 0 sz)⟩,
    ⟨.var "ZF" none 1, .equal (.var "res" none 0 sz) (.constant 0 sz)⟩,
    ⟨.var "af1" none 1, .equal low lowA⟩,
    ⟨.var "af2" none 1, .lessUnsigned low lowA⟩,
    ⟨.var "af1" none 1, .and (bit "af1" 0) (bit "CF" 0)⟩,
    ⟨.var "AF" none 1, .inclusiveOr (bit "af1" 0) (bit "af2" 0)⟩])
  let carry ← setCarryFlag res a
  let overflow ← setOverflowFlag res a b sz
  let parity ← setParityFlag res
  let write ← writeReg a_ res.toRvalue sz
  return (stmts ++ sum ++ carry ++ overflow ++ parity ++ write, .fallThru)

def add (a_ b_ : Rvalue) : Outcome String (List Statement × JumpSpec) := do
  let (a, b, sz, stmts) ← signExtend a_ b_
  let res : Lvalue := .var "res" none sz
  let sum ← .ofExcept (rreil [
    ⟨.var "res" none sz, .add a b⟩,
    ⟨.var "SF" none 1, .lessSigned (.var "res" none 0 sz) (.constant 0 sz)⟩,
    ⟨.var "ZF" none 1, .equal (.var "res" none 0 sz) (.constant 0 sz)⟩,
    ⟨.var "CF" none 1, .lessUnsigned res.toRvalue a⟩])
  let adjust ← setAdjFlag res a
  let overflow ← setOverflowFlag res a b sz
  let parity ← setParityFlag res
  let write ← writeReg a_ res.toRvalue sz
  return (stmts ++ sum ++ adjust ++ overflow ++ parity ++ write, .fallThru)

def cmp (a_ b_ : Rvalue) : Outcome String (List Statement × JumpSpec) := do
  let (a, b, sz, stmts) ← signExtend a_ b_
  let res : Lvalue := .var "res" none sz
  let difference ← .ofExcept (rreil [
    ⟨.var "res" none sz, .subtract a b⟩,
    ⟨.var "SF" none 1, .lessSigned (.var "res" none 0 sz) (.constant 0 sz)⟩,
    ⟨.var "ZF" none 1, .equal (.var "res" none 0 sz) (.constant 0 sz)⟩])
  let carry ← setSubCarryFlag res a
  let adjust ← setSubAdjFlag res a
  let overflow ← setSubOverflowFlag res a b sz
  let parity ← setParityFlag res
  return (stmts ++ difference ++ carry ++ adjust ++ overflow ++ parity, .fallThru)

def sbb (a_ b_ : Rvalue) : Outcome String (List Statement × JumpSpec) := do
  let (a, b, sz, stmts) ← signExtend a_ b_
  let res : Lvalue := .var "res" none sz
  let low ← Outcome.unwrap (res.extract 4 0).toOption
  let lowA ← Outcome.unwrap (a.extract 4 0).toOption
  let difference ← .ofExcept (rreil [
    ⟨.var "res" none sz, .subtract a b⟩,
    ⟨.var "cf" none sz, .zeroExtend sz (bit "CF" 0)⟩,
    ⟨.var "res" none sz, .subtract (.var "res" none 0 sz) (.var "cf" none 0 sz)⟩,
    ⟨.var "SF" none 1, .lessSigned (.var "res" none 0 sz) (.constant 0 sz)⟩,
    ⟨.var "ZF" none 1, .equal (.var "res" none 0 sz) (.constant 0 sz)⟩,
    ⟨.var "af1" none 1, .equal low lowA⟩,
    ⟨.var "af2" none 1, .lessUnsigned lowA low⟩,
    ⟨.var "af1" none 1, .and (bit "af1" 0) (bit "CF" 0)⟩,
    ⟨.var "AF" none 1, .inclusiveOr (bit "af1" 0) (bit "af2" 0)⟩])
  let carry ← setSubCarryFlag res a
  let overflow ← setSubOverflowFlag res a b sz
  let parity ← setParityFlag res
  let write ← writeReg a_ res.toRvalue sz
  return (stmts ++ difference ++ carry ++ overflow ++ parity ++ write, .fallThru)

def sub (a_ b_ : Rvalue) : Outcome String (List Statement × JumpSpec) := do
  let (a, b, sz, stmts) ← signExtend a_ b_
  let res : Lvalue := .var "res" none sz
  let difference ← .ofExcept (rreil [
    ⟨.var "res" none sz, .subtract a b⟩,
    ⟨.var "SF" none 1, .lessSigned (.var "res" none 0 sz) (.constant 0 sz)⟩,
    ⟨.var "ZF" none 1, .equal (.var "res" none 0 sz) (.constant 0 sz)⟩])
  let carry ← setSubCarryFlag res a
  let adjust ← setSubAdjFlag res a
  let overflow ← setSubOverflowFlag res a b sz
  let parity ← setParityFlag res
  let write ← writeReg a_ res.toRvalue sz
  return (stmts ++ difference ++ carry ++ adjust ++ overflow ++ parity ++ write, .fallThru)

/-- The flags of the result of a bitwise operation; CF and OF are cleared, AF is undefined. -/
def bitwiseFlags (sz : Nat) : List Statement := [
  ⟨.var "SF" none 1, .lessSigned (.var "res" none 0 sz) (.constant 0 sz)⟩,
  ⟨.var "ZF" none 1, .equal (.var "res" none 0 sz) (.constant 0 sz)⟩,
  ⟨.var "CF" none 1, .move (.constant 0 1)⟩,
  ⟨.var "OF" none 1, .move (.constant 0 1)⟩,
  ⟨.var "AF" none 1, .move .undefined⟩]

/-- A bitwise operation whose statements up to the flag AF are `combine`'s. -/
def bitwise (combine : Rvalue → Rvalue → Nat → List Statement) (a_ b_ : Rvalue) :
    Outcome String (List Statement × JumpSpec) := do
  let (a, b, sz, stmts) ← signExtend a_ b_
  let res : Lvalue := .var "res" none sz
  let combined ← .ofExcept (rreil (combine a b sz))
  let parity ← setParityFlag res
  let write ← writeReg a_ res.toRvalue sz
  return (stmts ++ combined ++ parity ++ write, .fallThru)

def and : Rvalue → Rvalue → Outcome String (List Statement × JumpSpec) :=
  bitwise fun a b sz => ⟨.var "res" none sz, .and a b⟩ :: bitwiseFlags sz

def or : Rvalue → Rvalue → Outcome String (List Statement × JumpSpec) :=
  bitwise fun a b sz => ⟨.var "res" none sz, .inclusiveOr a b⟩ :: bitwiseFlags sz

def xor : Rvalue → Rvalue → Outcome String (List Statement × JumpSpec) :=
  bitwise fun a b sz =>
    if a = b then [
      ⟨.var "res" none sz, .move (.constant 0 sz)⟩,
      ⟨.var "SF" none 1, .move (.constant 0 1)⟩,
      ⟨.var "ZF" none 1, .move (.constant 1 1)⟩,
      ⟨.var "CF" none 1, .move (.constant 0 1)⟩,
      ⟨.var "OF" none 1, .move (.constant 0 1)⟩,
      ⟨.var "AF" none 1, .move .undefined⟩]
    else ⟨.var "res" none sz, .exclusiveOr a b⟩ :: bitwiseFlags sz

def adcx (a_ b_ : Rvalue) : Outcome String (List Statement × JumpSpec) := do
  let (a, b, sz, stmts) ← signExtend a_ b_
  let res : Lvalue := .var "res" none sz
  let sum ← .ofExcept (rreil [
    ⟨.var "res" none sz, .add a b⟩,
    ⟨.var "cf" none sz, .zeroExtend sz (bit "CF" 0)⟩,
    ⟨.var "res" none sz, .add (.var "res" none 0 sz) (.var "cf" none 0 sz)⟩])
  let carry ← setCarryFlag res a
  let write ← writeReg a_ res.toRvalue sz
  return (stmts ++ sum ++ carry ++ write, .fallThru)

def imul2 (a_ b_ : Rvalue) : Outcome String (List Statement × JumpSpec) := do
  let (a, b, sz, stmts) ← signExtend a_ b_
  let res : Lvalue := .var "res" none sz
  let dsz := sz * 2
  let max : UInt64 := (1 <<< (sz - 1).toUInt64) - 1
  let product ← .ofExcept (rreil [
    ⟨.var "aa" none dsz, .zeroExtend dsz a⟩,
    ⟨.var "bb" none dsz, .zeroExtend dsz b⟩,
    ⟨.var "dres" none dsz, .multiply (.var "aa" none 0 dsz) (.var "bb" none 0 dsz)⟩,
    ⟨.var "res" none sz, .move (.var "dres" none 0 dsz)⟩,
    ⟨.var "SF" none 1, .lessSigned (.var "res" none 0 sz) (.constant 0 sz)⟩,
    ⟨.var "ZF" none 1, .move .undefined⟩,
    ⟨.var "AF" none 1, .move .undefined⟩,
    ⟨.var "PF" none 1, .move .undefined⟩,
    ⟨.var "CF" none 1, .lessUnsigned (.constant max dsz) (.var "dres" none 0 dsz)⟩,
    ⟨.var "OF" none 1, .move (bit "CF" 0)⟩])
  let write ← writeReg a_ res.toRvalue sz
  return (stmts ++ product ++ write, .fallThru)

/-- Assigns the second operand to the first, under their common size. -/
def assign (signExt : Bool) (a_ b_ : Rvalue) : Outcome String (List Statement × JumpSpec) := do
  let (_, b, sz, stmts) ← extend a_ b_ signExt
  let write ← writeReg a_ b sz
  return (stmts ++ write, .fallThru)

def mov : Rvalue → Rvalue → Outcome String (List Statement × JumpSpec) := assign false

def movzx : Rvalue → Rvalue → Outcome String (List Statement × JumpSpec) := assign false

def movsx : Rvalue → Rvalue → Outcome String (List Statement × JumpSpec) := assign true

def movsxd : Rvalue → Rvalue → Outcome String (List Statement × JumpSpec) := assign true

def lea : Rvalue → Rvalue → Outcome String (List Statement × JumpSpec) := assign false

def call (a : Rvalue) : Outcome String (List Statement × JumpSpec) := do
  let stmts ← .ofExcept (rreil [⟨.undefined, .call a⟩])
  return (stmts, .fallThru)

def jmp (a : Rvalue) : Outcome String (List Statement × JumpSpec) := .returns ([], .jump a)

inductive Condition where
  | below | overflow | notOverflow | aboveEqual | equal | notEqual | belowEqual | above | sign | notSign | parity
  | notParity | less | greaterEqual | lessEqual | greater
  deriving DecidableEq, Repr

/-- Conditions on more than one flag, and `below`, count as fulfilled. -/
def jcc (cond : Condition) (a : Rvalue) : Outcome String (List Statement × JumpSpec) :=
  let holds (name : String) : Guard := .predicate (bit name 0) true
  let guard := match cond with
    | .overflow => holds "OF"
    | .notOverflow => (holds "OF").negation
    | .aboveEqual => (holds "CF").negation
    | .equal => holds "ZF"
    | .notEqual => (holds "ZF").negation
    | .sign => holds "SF"
    | .notSign => (holds "SF").negation
    | .parity => holds "PF"
    | .notParity => (holds "PF").negation
    | _ => .always
  .returns ([], .branch a guard)

def sahf : Outcome String (List Statement × JumpSpec) := do
  let stmts ← .ofExcept (rreil [
    ⟨.var "CF" none 1, .move (bit "AH" 0)⟩,
    ⟨.var "PF" none 1, .move (bit "AH" 2)⟩,
    ⟨.var "AF" none 1, .move (bit "AH" 4)⟩,
    ⟨.var "ZF" none 1, .move (bit "AH" 6)⟩,
    ⟨.var "SF" none 1, .move (bit "AH" 7)⟩])
  return (stmts, .fallThru)

/-- What `push` and `pop` use of an operand of another size than 64 bits, with the statement that computes it. -/
def stackOperand (a : Rvalue) (low : Except String Rvalue) : Outcome String (Option (List Statement)) :=
  match a.size with
  | none => return none
  | some sz =>
    if sz < 64 then do
      let stmts ← .ofExcept (rreil [⟨.var "res" none 64, .signExtend 64 a⟩])
      return some stmts
    else if 64 < sz then do
      let low ← .unwrap low.toOption
      let stmts ← .ofExcept (rreil [⟨.var "res" none 64, .move low⟩])
      return some stmts
    else return none

def pop (a : Rvalue) : Outcome String (List Statement × JumpSpec) := do
  let a ← match Lvalue.fromRvalue a with
    | some a => Outcome.returns a
    | none => .fails "Can't pop() into Rvalue"
  let resized ← stackOperand a.toRvalue (a.extract 64 0)
  let target : Lvalue := if resized.isSome then .var "res" none 64 else a
  let load ← .ofExcept (rreil [
    ⟨.var "stack" none 64, .move (.var "RSP" none 0 64)⟩,
    ⟨.var "val" none 64, .load "RAM" .little 64 (.var "stack" none 0 64)⟩,
    ⟨.var "stack" none 64, .add (.var "RSP" none 0 64) (.constant 8 64)⟩])
  let write ← writeReg target.toRvalue (.var "val" none 0 64) 64
  let stack ← writeReg (.var "RSP" none 0 64) (.var "stack" none 0 64) 64
  return (resized.getD [] ++ load ++ write ++ stack, .fallThru)

def push (a : Rvalue) : Outcome String (List Statement × JumpSpec) := do
  let resized ← stackOperand a (a.extract 64 0)
  let value : Rvalue := if resized.isSome then .var "res" none 0 64 else a
  let store ← .ofExcept (rreil [
    ⟨.var "stack" none 64, .subtract (.var "RSP" none 0 64) (.constant 8 64)⟩,
    ⟨.undefined, .store "RAM" .little 64 (.var "stack" none 0 64) value⟩])
  let stack ← writeReg (.var "RSP" none 0 64) (.var "stack" none 0 64) 64
  return (resized.getD [] ++ store ++ stack, .fallThru)

def stub : Outcome String (List Statement × JumpSpec) := .returns ([], .fallThru)

def deadEnd : Outcome String (List Statement × JumpSpec) := .returns ([], .deadEnd)

def nonaries : List (String × Outcome String (List Statement × JumpSpec)) := [
  ("hlt", deadEnd), ("iret", deadEnd), ("iretw", deadEnd), ("ret", deadEnd), ("retf", deadEnd), ("sahf", sahf)]

def unaries : List (String × (Rvalue → Outcome String (List Statement × JumpSpec))) := [
  ("call", call), ("jmp", jmp), ("jo", jcc .overflow), ("jno", jcc .notOverflow), ("jb", jcc .below),
  ("jae", jcc .aboveEqual), ("je", jcc .equal), ("jne", jcc .notEqual), ("jbe", jcc .belowEqual), ("ja", jcc .above),
  ("js", jcc .sign), ("jns", jcc .notSign), ("jp", jcc .parity), ("jnp", jcc .notParity), ("jl", jcc .less),
  ("jle", jcc .lessEqual), ("jg", jcc .greater), ("jge", jcc .greaterEqual), ("pop", pop), ("push", push),
  ("retn", fun _ => deadEnd), ("retnf", fun _ => deadEnd)]

def binaries : List (String × (Rvalue → Rvalue → Outcome String (List Statement × JumpSpec))) := [
  ("adc", adc), ("adcx", adcx), ("add", add), ("and", and), ("cmp", cmp), ("imul2", imul2), ("lea", lea), ("mov", mov),
  ("movsx", movsx), ("movsxd", movsxd), ("movzx", movzx), ("or", or), ("sbb", sbb), ("sub", sub), ("xor", xor)]

/-- The semantic functions. Those of more than two operands are all stubs. -/
def semantics : Semantics
  | name, [] => (nonaries.lookup name).getD stub
  | name, [a] => ((unaries.lookup name).map fun f => f a).getD stub
  | name, [a, b] => ((binaries.lookup name).map fun f => f a b).getD stub
  | _, _ => stub

end Panopticon.Amd64.Semantic
