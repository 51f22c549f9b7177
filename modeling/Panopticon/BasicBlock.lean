import Panopticon.Il

/-! Mnemonics and the basic blocks they are collected in. -/

namespace Panopticon

/-- The address range from `start` up to, but not including, `stop`. -/
structure Bound where
  start : UInt64
  stop : UInt64
  deriving DecidableEq, Repr

def Bound.len (b : Bound) : UInt64 := b.stop - b.start

inductive MnemonicFormatToken where
  | literal (char : Char)
  | var (hasSign : Bool)
  | pointer (isCode : Bool) (bank : String)
  deriving DecidableEq, Repr

structure Mnemonic where
  area : Bound
  opcode : String
  operands : List Rvalue
  instructions : List Statement
  formatString : List MnemonicFormatToken
  deriving DecidableEq, Repr

def Mnemonic.size (mne : Mnemonic) : UInt64 := mne.area.len

structure BasicBlock where
  area : Bound
  mnemonics : List Mnemonic
  deriving DecidableEq, Repr

namespace BasicBlock

/-- Smallest range that covers `acc` and one more mnemonic. -/
def extend (acc : Option Bound) (m : Mnemonic) : Option Bound :=
  match acc with
  | none => some m.area
  | some r => some ⟨min r.start m.area.start, max r.stop m.area.stop⟩

def fromVec (ms : List Mnemonic) : BasicBlock where
  area := (ms.foldl extend none).getD ⟨0, 0⟩
  mnemonics := ms

def statements (bb : BasicBlock) : List Statement := bb.mnemonics.flatMap Mnemonic.instructions

end BasicBlock
end Panopticon
