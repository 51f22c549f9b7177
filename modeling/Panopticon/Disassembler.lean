import Panopticon.Search
import Panopticon.BasicBlock

/-! Disassemblers made of rules. A rule matches one token of the instruction set, or whatever
another disassembler matches. Tokens are `n` bytes wide. -/

namespace Panopticon.Disassembly
open Library

/-- Disassembler state. -/
structure State (n : Nat) (Configuration : Type) where
  address : UInt64
  tokens : List (BitVec (8 * n))
  groups : List (String × UInt64)
  mnemonics : List Mnemonic
  jumps : List (UInt64 × Rvalue × Guard)
  mnemonicOrigin : UInt64
  jumpOrigin : UInt64
  configuration : Configuration

/-- A rule for a single token. -/
structure Terminal (n : Nat) where
  mask : BitVec (8 * n)
  pattern : BitVec (8 * n)
  captureGroup : List (String × BitVec (8 * n))
  deriving DecidableEq

/-- A disassembler that is used by another one is known by the number of those that are older. -/
inductive Rule (n : Nat) where
  | terminal (rule : Terminal n)
  | sub (disassembler : Nat)
  deriving DecidableEq

/-- Semantic action. It may change the state and tells whether it accepts. -/
abbrev Action (n : Nat) (Configuration : Type) := State n Configuration → Bool × State n Configuration

structure Disassembler (n : Nat) (Configuration : Type) where
  graph : AdjacencyList Unit (Rule n)
  start : Nat
  ends : Std.ExtTreeMap Nat (Action n Configuration)
  default : Option (Action n Configuration)

section Pattern

variable {n : Nat} {ε : Type}

/-- What is known of a bit pattern while it is read. -/
structure Reader (n : Nat) where
  groups : Std.ExtTreeMap String (BitVec (8 * n))
  curGroup : String
  readPat : Bool
  bit : Nat
  mask : BitVec (8 * n)
  pat : BitVec (8 * n)

def Reader.capture (r : Reader n) : Outcome ε (Std.ExtTreeMap String (BitVec (8 * n))) :=
  if r.readPat ∧ r.curGroup ≠ "" then do
    let bits ← .unwrap r.groups[r.curGroup]?
    return r.groups.insert r.curGroup (bits ||| 1#(8 * n) <<< (r.bit - 1))
  else .returns r.groups

def Reader.step (r : Reader n) (c : Char) : Outcome ε (Reader n) := do
  if c = '@' then
    if r.readPat then .panics
    else if r.curGroup = "" then .panics
    else if r.groups.contains r.curGroup then return { r with readPat := true }
    else return { r with readPat := true, groups := r.groups.insert r.curGroup 0 }
  else if c = ' ' then return { r with readPat := false, curGroup := "" }
  else if c = '.' then
    if r.bit = 0 then .panics
    else
      let groups ← r.capture
      return { r with groups, bit := r.bit - 1 }
  else if c = '0' ∨ c = '1' then
    if r.bit = 0 then .panics
    else
      let mask := r.mask ||| 1#(8 * n) <<< (r.bit - 1)
      let pat := if c = '1' then r.pat ||| 1#(8 * n) <<< (r.bit - 1) else r.pat
      let groups ← r.capture
      return { r with groups, mask, pat, bit := r.bit - 1 }
  else if c.isAlpha then
    if r.readPat then .panics else return { r with curGroup := r.curGroup.push c }
  else .panics

def Terminal.into (order : Enumeration (String × BitVec (8 * n))) (self : String) : Outcome ε (Terminal n) := do
  let r ← Outcome.fold Reader.step ⟨∅, "", false, 8 * n, 0, 0⟩ self.toList
  if r.bit ≠ 0 then .panics
  else return ⟨r.mask, r.pat, (order.list r.groups.toList).filter fun x => x.2 ≠ 0⟩

end Pattern

namespace State

variable {n : Nat} {Configuration : Type} {ε : Type}

def new (a : UInt64) (c : Configuration) : State n Configuration := ⟨a, [], [], [], [], a, a, c⟩

def getGroup (self : State n Configuration) (name : String) : Outcome ε UInt64 :=
  .unwrap ((self.groups.find? fun x => x.1 = name).map Prod.snd)

def hasGroup (self : State n Configuration) (name : String) : Bool := (self.groups.find? fun x => x.1 = name).isSome

end State

section Match

variable {n : Nat} {Configuration : Type}

def captureBit (tok mask : BitVec (8 * n)) (res : UInt64) (rbit : Nat) : UInt64 :=
  let bit := 8 * n - rbit - 1
  let a := 1#(8 * n) <<< bit &&& mask
  if a ≠ 0 then
    let res := res <<< 1
    if tok &&& a ≠ 0 then res ||| 1 else res
  else res

def captureBits (tok mask : BitVec (8 * n)) (res : UInt64) : UInt64 :=
  (List.range (8 * n)).foldl (captureBit tok mask) res

def setGroup (groups : List (String × UInt64)) (name : String) (res : UInt64) : List (String × UInt64) :=
  if (groups.find? fun x => x.1 = name).isSome then
    groups.modify (groups.findIdx fun x => x.1 = name) fun x => (x.1, res)
  else groups ++ [(name, res)]

def capture (tok : BitVec (8 * n)) (groups : List (String × UInt64)) (group : String × BitVec (8 * n)) :
    List (String × UInt64) :=
  let res := ((groups.find? fun x => x.1 = group.1).map Prod.snd).getD 0
  setGroup groups group.1 (captureBits tok group.2 res)

def Terminal.matches (rule : Terminal n) (tok : BitVec (8 * n)) (state : State n Configuration) : Option (State n Configuration) :=
  if rule.mask &&& tok = rule.pattern then
    some { state with groups := rule.captureGroup.foldl (capture tok) state.groups, tokens := state.tokens ++ [tok] }
  else none

end Match

section Find

variable {n : Nat} {Configuration : Type} {ε : Type}

/-- The rest of a stream of cells. The content of a cell may be unknown. -/
abbrev Cells := List (Option UInt8)

def readBytes : Nat → BitVec (8 * n) → Cells → Option (BitVec (8 * n))
  | 0, tok, _ => some tok
  | k + 1, tok, some byte :: rest =>
    let tok := if tok ≠ 0 then tok <<< 8 else tok
    readBytes k (tok ||| BitVec.ofNat (8 * n) byte.toNat) rest
  | _, _, _ => none

/-- The next token, little endian, and what is left of the stream. -/
def readToken (i : Cells) : Option (BitVec (8 * n) × Cells) :=
  (readBytes n 0 (i.take n).reverse).map fun tok => (tok, i.drop n)

/-- A state that was accepted, and where it ends. -/
abbrev Found (n : Nat) (Configuration : Type) := State n Configuration × Cells

/-- How another disassembler searches. -/
abbrev Finder (ε : Type) (n : Nat) (Configuration : Type) :=
  Nat → Cells → State n Configuration → Outcome ε (List (Found n Configuration))

def accept (act : Action n Configuration) (found : Found n Configuration) : Option (Found n Configuration) :=
  let (accepted, state) := act found.1
  if accepted then some (state, found.2) else none

def Rule.matches (sub : Finder ε n Configuration) (rule : Rule n) (found : Found n Configuration) :
    Outcome ε (List (Found n Configuration)) :=
  match rule with
  | .terminal rule => .returns <| ((readToken found.2).bind fun read =>
      (rule.matches read.1 found.1).map fun state => (state, read.2)).toList
  | .sub disassembler => sub disassembler found.2 found.1

namespace Disassembler

def new : Disassembler n Configuration :=
  let (g, s) := AdjacencyList.new.addVertex ()
  ⟨g, s, ∅, none⟩

def findRule (g : AdjacencyList Unit (Rule n)) (r : Rule n) : List Nat → Outcome ε (Option Nat)
  | [] => return none
  | out :: rest => do
    match g.edgeLabel out with
    | some t =>
      if t = r then
        let v ← .unwrap (g.target out)
        return some v
      else findRule g r rest
    | none => findRule g r rest

/-- Follows the edge with the rule, a new one if there is none. -/
def addRule (s : AdjacencyList Unit (Rule n) × Nat) (r : Rule n) : Outcome ε (AdjacencyList Unit (Rule n) × Nat) := do
  let (g, v) := s
  match ← findRule g r (← g.outgoing v) with
  | some v => return (g, v)
  | none =>
    let (g, tmp) := g.addVertex ()
    return ((g.addEdge r v tmp).1, tmp)

def add (self : Disassembler n Configuration) (a : List (Rule n)) (b : Action n Configuration) :
    Outcome ε (Disassembler n Configuration) := do
  if a = [] then .panics
  else
    let (graph, v) ← Outcome.fold addRule (self.graph, self.start) a
    return { self with graph, ends := self.ends.insert v b }

def ending (self : Disassembler n Configuration) (state : Found n Configuration × Nat) : Option (Found n Configuration) :=
  self.ends[state.2]?.bind fun act => accept act state.1

def along (self : Disassembler n Configuration) (sub : Finder ε n Configuration) (found : Found n Configuration) (e : Nat) :
    Outcome ε (List (Found n Configuration × Nat)) :=
  match self.graph.edgeLabel e with
  | some rule => do
    let matched ← rule.matches sub found
    Outcome.each (fun found => do
      let v ← .unwrap (self.graph.target e)
      return (found, v)) matched
  | none => return []

def advance (self : Disassembler n Configuration) (sub : Finder ε n Configuration) (state : Found n Configuration × Nat) :
    Outcome ε (List (Found n Configuration × Nat)) :=
  match self.graph.vertexLabel state.2 with
  | some _ => do
    let next ← Outcome.each (self.along sub state.1) (← self.graph.outgoing state.2)
    return next.flatten
  | none => return []

/-- One turn of the loop in `find`, on the states and what was found. -/
def findTurn (self : Disassembler n Configuration) (sub : Finder ε n Configuration)
    (s : List (Found n Configuration × Nat) × List (Found n Configuration)) :
    Outcome ε (Option (List (Found n Configuration × Nat) × List (Found n Configuration))) := do
  if s.1 = [] then return none
  else
    let ret := s.2 ++ s.1.filterMap self.ending
    let next ← Outcome.each (self.advance sub) s.1
    return some (next.flatten, ret)

def find (self : Disassembler n Configuration) (sub : Finder ε n Configuration) (fuel : Nat) (i : Cells)
    (initial : State n Configuration) : Outcome ε (List (Found n Configuration)) := do
  let (_, ret) ← Outcome.repeated (fun _ => self.findTurn sub) fuel 0 ([((initial, i), self.start)], [])
  return ret

/-- Searches of several disassemblers, the last one first, of which each uses older ones. -/
def finder (fuel : Nat) : List (Disassembler n Configuration) → Finder ε n Configuration
  | [], _, _, _ => .panics
  | self :: older, k, i, state =>
    if k = older.length then self.find (finder fuel older) fuel i state else finder fuel older k i state

/-- The token sequence with the most tokens. Without any the default action has to do. -/
def nextMatch (self : Disassembler n Configuration) (sub : Finder ε n Configuration) (fuel : Nat) (i : Cells)
    (offset : UInt64) (cfg : Configuration) : Outcome ε (Option (State n Configuration)) := do
  let found ← self.find sub fuel i (.new offset cfg)
  match found with
  | [] =>
    match self.default, readToken i with
    | some act, some (tok, _) =>
      let (accepted, state) := act { (State.new offset cfg : State n Configuration) with tokens := [tok] }
      return if accepted then some state else none
    | _, _ => return none
  | [only] => return some only.1
  | _ =>
    let sorted := found.mergeSort fun b a => decide (a.1.tokens.length ≤ b.1.tokens.length)
    return (sorted.head?).map Prod.fst

end Disassembler
end Find

section RuleGen

variable {n : Nat} {Configuration : Type} {ε : Type}

/-- One item of a rule sequence as `new_disassembler!` takes them. -/
inductive Item (n : Nat) where
  | rule (rule : Rule n)
  | optional (rule : Rule n)

def Item.push (rules : List (List (Rule n))) : Item n → List (List (Rule n))
  | .rule r => rules.map (· ++ [r])
  | .optional r => rules ++ rules.map (· ++ [r])

def generate (items : List (Item n)) : List (List (Rule n)) := items.foldl Item.push [[]]

def Disassembler.addAll (self : Disassembler n Configuration) (rules : List (List (Rule n) × Action n Configuration)) :
    Outcome ε (Disassembler n Configuration) :=
  Outcome.fold (fun self rule => self.add rule.1 rule.2) self rules

/-- `new_disassembler!` -/
def newDisassembler (rules : List (List (Item n) × Action n Configuration)) (default : Option (Action n Configuration)) :
    Outcome ε (Disassembler n Configuration) := do
  let self ← Disassembler.new.addAll (rules.flatMap fun rule => (generate rule.1).map (·, rule.2))
  return { self with default }

end RuleGen
end Panopticon.Disassembly
