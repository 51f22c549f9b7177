import Panopticon.Il

/-! The size check that every RREIL statement passes when it is written down. -/

namespace Panopticon

/-- Digits of a number in lower case, without leading zeros. -/
def digits (base n : Nat) : String := String.ofList (Nat.toDigits base n)

def Rvalue.display : Rvalue → String
  | .undefined => "?"
  | .constant value size => "0x" ++ digits 16 value.toNat ++ ":" ++ digits 10 size
  | .var name subscript offset size =>
    name ++ (subscript.map fun s => "_" ++ digits 10 s).getD "" ++ ":" ++ digits 10 size ++
      (if 0 < offset then "/" ++ digits 10 offset else "")

def Guard.negation : Guard → Guard
  | .always => .never
  | .never => .always
  | .predicate flag expected => .predicate flag !expected

namespace Statement

def typecheckBinop (self : Statement) (a b : Rvalue) : Except String Unit :=
  if ¬(a.size = none ∨ b.size = none ∨ a.size = b.size) then
    .error ("Argument sizes mismatch: " ++ a.display ++ " vs. " ++ b.display)
  else if ¬(self.assignee.size = none ∨ some (max (a.size.getD 0) (b.size.getD 0)) = self.assignee.size) then
    .error ("Operation result and assingnee sizes mismatch (" ++ reprStr self ++ ")")
  else .ok ()

def typecheckCmpop (self : Statement) (a b : Rvalue) : Except String Unit :=
  if ¬(a.size = none ∨ b.size = none ∨ a.size = b.size) then .error "Argument sizes mismatch"
  else if ¬(self.assignee.size = none ∨ self.assignee.size = some 1) then
    .error "Compare operation assingnee not a flag"
  else .ok ()

def typecheckUnop (self : Statement) (a : Rvalue) (sz : Option Nat) : Except String Unit :=
  let fits : Bool := match sz with
    | none => self.assignee.size.getD 0 ≤ a.size.getD 0
    | some _ => self.assignee.size = sz
  if a.size = none ∨ self.assignee.size = none ∨ fits then .ok ()
  else .error "Operation result and assingnee sizes mismatch"

def typecheck (self : Statement) : Except String Unit :=
  match self.op with
  | .add a b | .subtract a b | .multiply a b | .divideUnsigned a b | .divideSigned a b | .shiftLeft a b
  | .shiftRightUnsigned a b | .shiftRightSigned a b | .modulo a b | .and a b | .exclusiveOr a b
  | .inclusiveOr a b => self.typecheckBinop a b
  | .equal a b | .lessOrEqualUnsigned a b | .lessOrEqualSigned a b | .lessUnsigned a b | .lessSigned a b =>
    self.typecheckCmpop a b
  | .signExtend size a | .zeroExtend size a => self.typecheckUnop a (some size)
  | .move a => self.typecheckUnop a none
  | .select offset a b =>
    if self.assignee.size = a.size ∧ offset + b.size.getD 0 ≤ a.size.getD 0 then .ok ()
    else .error "Ill-sized Select operation"
  | .initialized _ size =>
    if self.assignee.size = none ∨ self.assignee.size = some size then .ok ()
    else .error "Operation result and assingnee sizes mismatch"
  | .call _ =>
    if self.assignee = .undefined then .ok () else .error "Call operation can only be assigned to Undefined"
  | .load _ _ size _ =>
    if self.assignee.size ≠ none ∧ self.assignee.size ≠ some size then
      .error ("Memory operation with invalid size. Expected " ++ reprStr (some size) ++ " got " ++
        reprStr self.assignee.size)
    else if size = 0 then .error "Memory operation of size 0"
    else if size % 8 ≠ 0 then .error "Memory operation not byte aligned"
    else .ok ()
  | .store _ _ size _ val =>
    if val.size ≠ none ∧ self.assignee.size ≠ none ∧ val.size ≠ self.assignee.size then
      .error "Memory store value with inconsitend size"
    else if size = 0 then .error "Memory operation of size 0"
    else if val.size ≠ none ∧ val.size ≠ some size then
      .error ("Memory store value with inconsitend size: " ++ reprStr val.size ++ " != " ++ digits 10 size)
    else if size % 8 ≠ 0 then .error "Memory operation not byte aligned"
    else .ok ()
  | .phi operands =>
    if (∀ rv ∈ operands, rv.size = self.assignee.size) ∧ self.assignee.size ≠ none then .ok ()
    else .error "Phi arguments must have equal sizes and can't be Undefined"

def sanityCheck (self : Statement) : Except String Unit := do
  self.typecheck
  if (∀ rv ∈ self.op.operands, rv.size ≠ some 0) ∧ self.assignee.size ≠ some 0 then return ()
  else throw "Operation argument and/or assignee has size 0"

end Statement

/-- Statements written down together: the first that fails its check is the error. -/
def rreil (stmts : List Statement) : Except String (List Statement) := do
  stmts.forM Statement.sanityCheck
  return stmts

end Panopticon
