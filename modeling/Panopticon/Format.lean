import Panopticon.BasicBlock

/-! Format strings, which say how a mnemonic prints its operands. -/

namespace Panopticon.MnemonicFormatToken

/-- Reads `:`, a name and a closing brace. Answers the name and what is behind the brace. -/
def parseBank : List Char → Except String (String × List Char)
  | ':' :: i =>
    match i.findIdx? (· == '}') with
    | some p => .ok (.ofList (i.take p), i.drop (p + 1))
    | none => .error "Mnemonic format string parse error. Expecting '\x7d'."
  | _ => .error "Mnemonic format string parse error. Bank name is invalid."

theorem parseBank_shorter {j k : List Char} {bank : String} (parsed : parseBank j = .ok (bank, k)) : k.length < j.length := by
  unfold parseBank at parsed
  split at parsed
  · split at parsed
    · cases parsed
      simp only [List.length_drop, List.length_cons]
      omega
    · cases parsed
  · cases parsed

/-- The loop in `parse`. What stands behind `u` and `s` is skipped, whatever it is. -/
def parse : (j : List Char) → Except String (List MnemonicFormatToken)
  | [] => .ok []
  | '{' :: '{' :: j => do return .literal '{' :: (← parse j)
  | '{' :: 'u' :: j => do return .var false :: (← parse j.tail)
  | '{' :: 's' :: j => do return .var true :: (← parse j.tail)
  | '{' :: 'p' :: j =>
    match _ : parseBank j with
    | .ok (bank, k) => do return .pointer false bank :: (← parse k)
    | .error message => .error message
  | '{' :: 'c' :: j =>
    match _ : parseBank j with
    | .ok (bank, k) => do return .pointer true bank :: (← parse k)
    | .error message => .error message
  | '{' :: _ => .error "Mnemonic format string parse error. Unknown format identifier."
  | a :: j => do return .literal a :: (← parse j)
termination_by j => j.length
decreasing_by
  all_goals simp only [List.length_cons, List.length_tail]
  any_goals have shorter := parseBank_shorter ‹_›
  all_goals omega

theorem parse_literal {a : Char} (other : a ≠ '{') (j : List Char) : parse (a :: j) = do return .literal a :: (← parse j) := by
  apply parse.eq_8 <;> simp [other]

theorem parse_data (j : List Char) : parse ('{' :: 'p' :: j) =
    (parseBank j).bind fun (bank, k) => do return .pointer false bank :: (← parse k) := by
  rw [parse]
  split <;> simp [*, Except.bind]

theorem parse_code (j : List Char) : parse ('{' :: 'c' :: j) =
    (parseBank j).bind fun (bank, k) => do return .pointer true bank :: (← parse k) := by
  rw [parse]
  split <;> simp [*, Except.bind]

end Panopticon.MnemonicFormatToken
