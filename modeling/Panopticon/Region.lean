import Panopticon.Library.Outcome

/-! Regions: stacks of layers over one address space, and the iterator tree that reads
them. Positions and sizes are natural numbers; subtractions and slices panic
where the program's do. -/

namespace Panopticon
open Library

/-- A single, possibly undefined, byte. -/
abbrev Cell := Option UInt8

/-- Part of a region. -/
structure Area where
  start : Nat
  stop : Nat
  deriving DecidableEq, Repr

inductive OpaqueLayer where
  | undefined (len : Nat)
  | defined (data : List UInt8)
  deriving DecidableEq, Repr

namespace OpaqueLayer

def len : OpaqueLayer → Nat
  | .undefined len => len
  | .defined data => data.length

end OpaqueLayer

inductive Layer where
  | opaqueLayer (layer : OpaqueLayer)
  | sparse (map : Std.ExtTreeMap Nat Cell)

namespace Layer

def asOpaque : Layer → Option OpaqueLayer
  | .opaqueLayer layer => some layer
  | .sparse _ => none

end Layer

/-- Iterator over a range of cells. -/
inductive LayerIter where
  | undefined (rest : Nat)
  | defined (buf : Option (List UInt8))
  | sparse (map : Std.ExtTreeMap Nat Cell) (mapped : LayerIter) (pos : Nat)
  | concat (car cdr : LayerIter)

namespace LayerIter
variable {ε : Type}

def next : LayerIter → Option Cell × LayerIter
  | .undefined 0 => (none, .undefined 0)
  | .undefined (r + 1) => (some none, .undefined r)
  | .defined none => (none, .defined none)
  | .defined (some buf) => (buf.head?.map some, .defined (if 1 < buf.length then some buf.tail else none))
  | .sparse map mapped pos =>
    match mapped.next with
    | (some covered, mapped) => (some (map[pos]?.getD covered), .sparse map mapped (pos + 1))
    | (none, mapped) => (none, .sparse map mapped pos)
  | .concat car cdr =>
    match car.next with
    | (some cell, car) => (some cell, .concat car cdr)
    | (none, car) => (cdr.next.1, .concat car cdr.next.2)

def len : LayerIter → Nat
  | .undefined r => r
  | .defined none => 0
  | .defined (some buf) => buf.length
  | .sparse _ mapped _ => mapped.len
  | .concat car cdr => car.len + cdr.len

/-- A difference of sizes. A release build goes on with the wrapped number where a debug build, as here, panics. -/
def difference (a b : Nat) : Outcome ε Nat := if b ≤ a then return a - b else .panics

/-- The cells of `buf` from `start` up to `stop`. -/
def slice (buf : List UInt8) (start stop : Nat) : Outcome ε (List UInt8) :=
  if start ≤ stop ∧ stop ≤ buf.length then return (buf.take stop).drop start else .panics

/-- An iterator over the cells from `start` up to `stop`. -/
def cut (it : LayerIter) (start stop : Nat) : Outcome ε LayerIter :=
  if stop ≤ start then return .defined none
  else
    let realEnd := if it.len < stop then it.len else stop
    match it with
    | .undefined _ => do return .undefined (← difference realEnd start)
    | .defined none => return .defined none
    | .defined (some buf) => do return .defined (some (← slice buf start realEnd))
    | .sparse map mapped pos => do return .sparse map (← mapped.cut start stop) (pos + start)
    | .concat car cdr =>
      if start < car.len ∧ realEnd ≤ car.len then car.cut start stop
      else if car.len ≤ start ∧ car.len < realEnd then cdr.cut (start - car.len) (realEnd - car.len)
      else do
        let first ← car.cut start car.len
        let rest ← difference realEnd car.len
        return .concat first (← cdr.cut 0 rest)

/-- Moves the iterator forward by `p` cells. -/
def seek (it : LayerIter) (p : Nat) : Outcome ε LayerIter := if 0 < p then it.cut p it.len else return it

def append (it other : LayerIter) : LayerIter := .concat it other

/-- The length in the words of the machine, whose sums wrap. -/
def wordLen : LayerIter → UInt64
  | .undefined r => r.toUInt64
  | .defined none => 0
  | .defined (some buf) => buf.length.toUInt64
  | .sparse _ mapped _ => mapped.wordLen
  | .concat car cdr => car.wordLen + cdr.wordLen

/-- Writes cells into what is left of a buffer from `idx` on. Answers the count to return, the bytes from there on
and the iterator. -/
def readFrom (idx : Nat) (it : LayerIter) : List UInt8 → Nat × List UInt8 × LayerIter
  | [] => (0, [], it)
  | old :: rest =>
    match it.next with
    | (some (some b), it) =>
      let (count, bytes, it) := readFrom (idx + 1) it rest
      (count, b :: bytes, it)
    | (_, it) => (idx, old :: rest, it)

def read (it : LayerIter) (buf : List UInt8) : Nat × List UInt8 × LayerIter := it.readFrom 0 buf

end LayerIter

def OpaqueLayer.iter : OpaqueLayer → LayerIter
  | .undefined len => .undefined len
  | .defined data => .defined (some data)

/-- The cells of `it` with the layer on top of them. -/
def Layer.filter : Layer → LayerIter → LayerIter
  | .opaqueLayer layer, _ => layer.iter
  | .sparse map, it => .sparse map it 0

structure Region where
  stack : List (Area × Layer)
  size : Nat

namespace Region
variable {ε : Type}

def new (root : OpaqueLayer) : Region := ⟨[(⟨0, root.len⟩, .opaqueLayer root)], root.len⟩

def tooSmall (b : Area) (l : Layer) : Bool :=
  match l.asOpaque with
  | some layer => decide (layer.len < b.stop - b.start)
  | none => false

/-- Applies `l` to the cells inside `b`. Answers `false`, and does nothing, when `b` is not inside the region or not
compatible with `l`. -/
def cover (region : Region) (b : Area) (l : Layer) : Outcome ε (Region × Bool) := do
  let root ← .unwrap region.stack[0]?
  if b.stop ≤ root.1.stop then
    if tooSmall b l then return (region, false)
    else return ({ region with stack := region.stack ++ [(b, l)] }, true)
  else return (region, false)

/-- `assert_eq!` -/
def assertEq (a b : Nat) : Outcome ε Unit := if a = b then return () else .panics

/-- Puts the cells of `ret` before the area in front of `tmp`. -/
def keepBefore (ret : LayerIter) (area : Area) (tmp : LayerIter) : Outcome ε LayerIter :=
  if area.start ≠ 0 then do
    let tmp := (← ret.cut 0 area.start).append tmp
    assertEq tmp.len area.stop
    return tmp
  else return tmp

/-- Puts the cells of `ret` after the area behind `tmp`. -/
def keepAfter (ret : LayerIter) (area : Area) (tmp : LayerIter) : Outcome ε LayerIter :=
  if area.stop < ret.len then do return tmp.append (← ret.cut area.stop ret.len)
  else return tmp

/-- One layer of the stack put on top of what `ret` reads. -/
def applyLayer (ret : LayerIter) (entry : Area × Layer) : Outcome ε LayerIter := do
  let (area, layer) := entry
  let src ← ret.cut area.start area.stop
  assertEq src.len (← LayerIter.difference area.stop area.start)
  let tmp ← keepBefore ret area (layer.filter src)
  let tmp ← keepAfter ret area tmp
  assertEq ret.len tmp.len
  return tmp

def iter (region : Region) : Outcome ε LayerIter := do
  let root ← .unwrap region.stack[0]?
  let layer ← .unwrap root.2.asOpaque
  Outcome.fold applyLayer layer.iter (region.stack.drop 1)

/-- The parts of `x` that `a` leaves uncovered. -/
def uncovered (a x : Area) : List Area :=
  if x.start ≥ a.start ∧ x.stop ≤ a.stop then []
  else if x.start ≥ a.stop ∨ x.stop ≤ a.start then [x]
  else if x.start > a.start ∧ x.stop ≥ a.stop then
    if a.stop < x.stop then [⟨a.stop, x.stop⟩] else []
  else if a.start > x.start ∧ a.stop ≥ x.stop then
    if x.start < a.start then [⟨x.start, a.start⟩] else []
  else (if x.start < a.start then [⟨x.start, a.start⟩] else []) ++ if a.stop < x.stop then [⟨a.stop, x.stop⟩] else []

def add (a : Area × Layer) (v : List (Area × Layer)) : List (Area × Layer) :=
  v.foldl (fun acc x => acc ++ (uncovered a.1 x.1).map (·, x.2)) [] ++ [a]

def flatten (region : Region) : List (Area × Layer) :=
  (region.stack.foldl (fun ret x => add x ret) []).insertionSort fun a b => a.1.start ≤ b.1.start

/-- A sequence of calls of `cover`. -/
def coverAll (region : Region) (calls : List (Area × Layer)) : Outcome ε Region :=
  Outcome.fold (fun region call => do return (← region.cover call.1 call.2).1) region calls

end Region
end Panopticon
