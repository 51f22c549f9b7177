import Panopticon.Statement
import Panopticon.Evaluate
import Panopticon.Library.Outcome

/-! RREIL code of AVR instructions that add, subtract and compare 8 bit registers. -/

namespace Panopticon.Avr
open Panopticon.Library

def registers : List String := [
  "R0", "R1", "R2", "R3", "R4", "R5", "R6", "R7", "R8", "R9", "R10", "R11", "R12", "R13", "R14", "R15", "R16", "R17",
  "R18", "R19", "R20", "R21", "R22", "R23", "R24", "R25", "R26", "R27", "R28", "R29", "R30", "R31"]

def resolv (r : UInt64) : Outcome String Lvalue :=
  match registers[r.toNat]? with
  | some name => .returns (.var name none 8)
  | none => .panics

def bit (name : String) : Rvalue := .var name none 0 1

def res : Rvalue := .var "res" none 0 8

def halfRes : Rvalue := .var "res" none 0 4

def zero : Rvalue := .constant 0 8

def sumOverflow (rd rr : Rvalue) : List Statement := [
  ⟨.var "s1" none 1, .lessOrEqualSigned zero rd⟩,
  ⟨.var "s2" none 1, .lessOrEqualSigned zero rr⟩,
  ⟨.var "s3" none 1, .lessSigned res zero⟩,
  ⟨.var "t1" none 1, .lessSigned rd zero⟩,
  ⟨.var "t2" none 1, .lessSigned rr zero⟩,
  ⟨.var "t3" none 1, .lessOrEqualSigned zero res⟩,
  ⟨.var "v1" none 1, .and (bit "s1") (bit "s2")⟩,
  ⟨.var "v1" none 1, .and (bit "v1") (bit "s3")⟩,
  ⟨.var "v2" none 1, .and (bit "t1") (bit "t2")⟩,
  ⟨.var "v2" none 1, .and (bit "v2") (bit "t3")⟩,
  ⟨.var "V" none 1, .inclusiveOr (bit "v1") (bit "v2")⟩]

def differenceOverflow (rd rr : Rvalue) : List Statement := [
  ⟨.var "s1" none 1, .lessOrEqualSigned rd zero⟩,
  ⟨.var "s2" none 1, .lessOrEqualSigned rr zero⟩,
  ⟨.var "s3" none 1, .lessSigned zero res⟩,
  ⟨.var "t1" none 1, .lessSigned zero rd⟩,
  ⟨.var "t2" none 1, .lessSigned zero rr⟩,
  ⟨.var "t3" none 1, .lessOrEqualSigned res zero⟩,
  ⟨.var "v1" none 1, .and (bit "s1") (bit "s2")⟩,
  ⟨.var "v1" none 1, .and (bit "v1") (bit "s3")⟩,
  ⟨.var "v2" none 1, .and (bit "t1") (bit "t2")⟩,
  ⟨.var "v2" none 1, .and (bit "v2") (bit "t3")⟩,
  ⟨.var "V" none 1, .inclusiveOr (bit "v1") (bit "v2")⟩]

def adc (rd : Lvalue) (rr : Rvalue) : Outcome String (List Statement) := do
  let halfRd ← match rd with
    | .var name _ 8 => .returns (.var name none 0 4)
    | _ => .panics
  .ofExcept (rreil ([
    ⟨.var "carry" none 8, .zeroExtend 8 (bit "C")⟩,
    ⟨.var "res" none 8, .add rd.toRvalue rr⟩,
    ⟨.var "res" none 8, .add res (.var "carry" none 0 8)⟩,
    ⟨.var "Z" none 1, .equal res zero⟩,
    ⟨.var "N" none 1, .lessOrEqualSigned res zero⟩,
    ⟨.var "cf1" none 1, .equal res rd.toRvalue⟩,
    ⟨.var "cf2" none 1, .lessUnsigned res rd.toRvalue⟩,
    ⟨.var "cf1" none 1, .and (bit "cf1") (bit "C")⟩,
    ⟨.var "C" none 1, .inclusiveOr (bit "cf1") (bit "cf2")⟩,
    ⟨.var "h1" none 1, .equal halfRes halfRd⟩,
    ⟨.var "h2" none 1, .lessUnsigned halfRes halfRd⟩,
    ⟨.var "h1" none 1, .and (bit "h1") (bit "H")⟩,
    ⟨.var "H" none 1, .inclusiveOr (bit "h1") (bit "h2")⟩] ++
    sumOverflow rd.toRvalue rr ++ [
    ⟨.var "S" none 1, .exclusiveOr (bit "N") (bit "V")⟩,
    ⟨rd, .move res⟩]))

def add (rd : Lvalue) (rr : Rvalue) : Outcome String (List Statement) := do
  let halfRd ← Outcome.unwrap (rd.extract 4 0).toOption
  .ofExcept (rreil ([
    ⟨.var "res" none 8, .add rd.toRvalue rr⟩,
    ⟨.var "Z" none 1, .equal res zero⟩,
    ⟨.var "N" none 1, .lessOrEqualSigned res zero⟩,
    ⟨.var "C" none 1, .lessUnsigned res rd.toRvalue⟩,
    ⟨.var "H" none 1, .lessUnsigned halfRes halfRd⟩] ++
    sumOverflow rd.toRvalue rr ++ [
    ⟨.var "S" none 1, .exclusiveOr (bit "N") (bit "V")⟩,
    ⟨rd, .move res⟩]))

def cp (rd : Lvalue) (rr : Rvalue) : Outcome String (List Statement) := do
  let halfRd ← Outcome.unwrap (rd.extract 4 0).toOption
  .ofExcept (rreil ([
    ⟨.var "res" none 8, .subtract rd.toRvalue rr⟩,
    ⟨.var "C" none 1, .lessUnsigned rd.toRvalue res⟩,
    ⟨.var "H" none 1, .lessUnsigned halfRd halfRes⟩] ++
    differenceOverflow rd.toRvalue rr ++ [
    ⟨.var "Z" none 1, .equal res zero⟩,
    ⟨.var "N" none 1, .lessUnsigned res zero⟩,
    ⟨.var "S" none 1, .exclusiveOr (bit "V") (bit "N")⟩]))

def cpc (rd : Lvalue) (rr : Rvalue) : Outcome String (List Statement) := do
  let halfRd ← Outcome.unwrap (rd.extract 4 0).toOption
  .ofExcept (rreil ([
    ⟨.var "carry" none 8, .zeroExtend 8 (bit "C")⟩,
    ⟨.var "res" none 8, .subtract rd.toRvalue rr⟩,
    ⟨.var "res" none 8, .subtract res (.var "carry" none 0 8)⟩,
    ⟨.var "cf1" none 1, .equal res rd.toRvalue⟩,
    ⟨.var "cf2" none 1, .lessUnsigned res rd.toRvalue⟩,
    ⟨.var "cf1" none 1, .and (bit "cf1") (bit "C")⟩,
    ⟨.var "C" none 1, .inclusiveOr (bit "cf1") (bit "cf2")⟩,
    ⟨.var "h1" none 1, .equal halfRes halfRd⟩,
    ⟨.var "h2" none 1, .lessUnsigned halfRes halfRd⟩,
    ⟨.var "h1" none 1, .and (bit "h1") (bit "H")⟩,
    ⟨.var "H" none 1, .inclusiveOr (bit "h1") (bit "h2")⟩] ++
    differenceOverflow rd.toRvalue rr ++ [
    ⟨.var "Z" none 1, .equal res zero⟩,
    ⟨.var "N" none 1, .lessUnsigned res zero⟩,
    ⟨.var "S" none 1, .exclusiveOr (bit "V") (bit "N")⟩]))

def sbc (rd : Lvalue) (rr : Rvalue) : Outcome String (List Statement) := do
  let halfRd ← Outcome.unwrap (rd.extract 4 0).toOption
  let halfRr ← Outcome.unwrap (rr.extract 4 0).toOption
  .ofExcept (rreil [
    ⟨.var "carry" none 8, .zeroExtend 8 (bit "C")⟩,
    ⟨.var "res" none 8, .subtract rd.toRvalue rr⟩,
    ⟨.var "res" none 8, .subtract res (.var "carry" none 0 8)⟩,
    ⟨.var "maybe_z" none 1, .equal res zero⟩,
    ⟨.var "Z" none 1, .and (bit "Z") (bit "maybe_z")⟩,
    ⟨.var "N" none 1, .lessOrEqualSigned res zero⟩,
    ⟨.var "C" none 1, .lessUnsigned rd.toRvalue rr⟩,
    ⟨.var "H" none 1, .lessUnsigned halfRd halfRr⟩,
    ⟨.var "V" none 1, .lessSigned rd.toRvalue rr⟩,
    ⟨.var "S" none 1, .exclusiveOr (bit "N") (bit "V")⟩,
    ⟨rd, .move res⟩])

def sub (rd : Lvalue) (rr : Rvalue) : Outcome String (List Statement) := do
  let halfRd ← Outcome.unwrap (rd.extract 4 0).toOption
  let halfRr ← Outcome.unwrap (rr.extract 4 0).toOption
  .ofExcept (rreil [
    ⟨.var "res" none 8, .subtract rd.toRvalue rr⟩,
    ⟨.var "Z" none 1, .equal res zero⟩,
    ⟨.var "N" none 1, .lessOrEqualSigned res zero⟩,
    ⟨.var "C" none 1, .lessUnsigned rd.toRvalue rr⟩,
    ⟨.var "H" none 1, .lessUnsigned halfRd halfRr⟩,
    ⟨.var "V" none 1, .lessSigned rd.toRvalue rr⟩,
    ⟨.var "S" none 1, .exclusiveOr (bit "N") (bit "V")⟩,
    ⟨rd, .move res⟩])

def binary (sem : Lvalue → Rvalue → Outcome String (List Statement)) (d r : UInt64) : Outcome String (List Statement) := do
  let rd ← resolv d
  let rr ← resolv r
  sem rd rr.toRvalue

end Panopticon.Avr
