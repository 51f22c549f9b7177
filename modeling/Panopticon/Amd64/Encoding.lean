import Panopticon.Amd64.Operand
import Panopticon.Meaning

/-! The memory operands of 64 bit code as their encoding defines them: the fields of the ModRM
and SIB bytes, the displacement, and the address they add up to. -/

namespace Panopticon.Amd64
open Panopticon.Library.Word

/-- The bytes of a memory operand: the ModRM byte, and `rest` after it. -/
structure Encoding where
  rex : Option Rex
  modrm : UInt8
  rest : List UInt8

namespace Encoding

def register (field : Nat) (extended : Bool) : Register :=
  [.RAX, .RCX, .RDX, .RBX, .RSP, .RBP, .RSI, .RDI, .R8, .R9, .R10, .R11, .R12, .R13, .R14, .R15].getD
    (field + if extended then 8 else 0) .none

variable (e : Encoding)

def mod : Nat := e.modrm.toNat / 64
def rm : Nat := e.modrm.toNat % 8
def sib : Nat := (e.rest.headD 0).toNat
def scale : Nat := e.sib / 64
def index : Nat := e.sib / 8 % 8
def base : Nat := e.sib % 8

/-- The bits of the REX prefix that extend the index, and the base or the register. -/
def x : Bool := (e.rex.map Rex.x).getD false
def b : Bool := (e.rex.map Rex.b).getD false

def hasSib : Bool := e.mod ≠ 3 ∧ e.rm = 4

def relative : Bool := e.mod = 0 ∧ e.rm = 5

def baseless : Bool := e.hasSib ∧ e.mod = 0 ∧ e.base = 5

def dispLength : Nat := if e.mod = 1 then 1 else if e.mod = 2 ∨ e.relative ∨ e.baseless then 4 else 0

def sibLength : Nat := if e.hasSib then 1 else 0

def extent : Nat := e.sibLength + e.dispLength

def disp : Int :=
  twos (8 * e.dispLength) (Nat.ofDigits 256 (((e.rest.drop e.sibLength).take e.dispLength).map UInt8.toNat))

def baseRegister : Register :=
  if e.relative ∨ e.baseless then .none else if e.hasSib then register e.base e.b else register e.rm e.b

/-- The number 4 stands for no index, the number 12 for R12. -/
def indexRegister : Register :=
  if e.hasSib ∧ ¬(e.index = 4 ∧ e.x = false) then register e.index e.x else .none

def held (ρ : Valuation) (reg : Register) : Nat := if reg = .none then 0 else ρ reg.name none % 2 ^ 64

/-- The address under the values of the registers, with the address of the next instruction. -/
def address (next : UInt64) (ρ : Valuation) : Nat :=
  ((held ρ e.baseRegister + held ρ e.indexRegister * 2 ^ e.scale + e.disp +
    if e.relative then (next.toNat : Int) else 0) % 2 ^ 64).toNat

end Encoding
end Panopticon.Amd64
