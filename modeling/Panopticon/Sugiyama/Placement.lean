import Panopticon.Search

/-! Two passes of the horizontal placement in a layered layout: the conflicts between edges of
virtual vertices and others, and the alignment of vertices on consecutive ranks. -/

namespace Panopticon.Sugiyama
open Library

variable {ε : Type}

/-- Index of the first element that equals `x`. -/
def position (row : List Nat) (x : Nat) : Outcome ε Nat := .unwrap (row.findIdx? (· = x))

/-- The loop over the vertices of a lower rank: the bound `k0` into the upper rank, the lagging index `l`, and the
conflicts found so far. -/
structure Sweep where
  k0 : Nat
  l : Nat
  ret : List (Nat × Nat)

/-- A vertex of the upper rank `i` that is virtual. -/
def virtualAbove (virtStart : Nat) (rank : Std.ExtTreeMap Nat Int) (g : AdjacencyList Nat Nat) (i : Nat) (w : Nat) :
    Outcome ε Bool := do
  let level ← .unwrap rank[w]?
  if level = i then
    let label ← .unwrap (g.vertexLabel w)
    return virtStart ≤ label
  else return false

/-- The first edge from a virtual vertex of rank `i` to `v`, if `v` is virtual too. -/
def innerEdge (virtStart : Nat) (rank : Std.ExtTreeMap Nat Int) (g : AdjacencyList Nat Nat) (i v : Nat) :
    List Nat → Outcome ε (Option Nat)
  | [] => return none
  | e :: rest => do
    let w ← .unwrap (g.source e)
    if ← virtualAbove virtStart rank g i w then
      let label ← .unwrap (g.vertexLabel v)
      if virtStart ≤ label then return some e else innerEdge virtStart rank g i v rest
    else innerEdge virtStart rank g i v rest

/-- Marks an edge when it comes from a virtual vertex outside of `k0` to `k1`. -/
def markEdge (virtStart : Nat) (upper : List Nat) (rank : Std.ExtTreeMap Nat Int) (g : AdjacencyList Nat Nat) (i k0 k1 : Nat)
    (ret : List (Nat × Nat)) (e : Nat) : Outcome ε (List (Nat × Nat)) := do
  let w ← .unwrap (g.source e)
  if ← virtualAbove virtStart rank g i w then
    let k ← position upper w
    let t ← .unwrap (g.target e)
    return if k < k0 ∨ k > k1 then ret ++ [(w, t)] else ret
  else return ret

def markEdges (virtStart : Nat) (upper : List Nat) (rank : Std.ExtTreeMap Nat Int) (g : AdjacencyList Nat Nat)
    (i v k0 k1 : Nat) (ret : List (Nat × Nat)) : Outcome ε (List (Nat × Nat)) := do
  Outcome.fold (markEdge virtStart upper rank g i k0 k1) ret (← g.incoming v)

/-- One vertex `v` of the lower rank, at index `l1`. -/
def markVertex (virtStart : Nat) (upper lower : List Nat) (rank : Std.ExtTreeMap Nat Int) (g : AdjacencyList Nat Nat)
    (i : Nat) (s : Sweep) (l1 : Nat) : Outcome ε Sweep := do
  let v ← .unwrap lower[l1]?
  let maybeUpn ← innerEdge virtStart rank g i v (← g.incoming v)
  if l1 = lower.length ∨ maybeUpn.isSome then
    let k1 ← match maybeUpn with
      | some upn => do position upper (← .unwrap (g.source upn))
      | none => pure (upper.length - 1)
    -- while l <= l1, always with the edges of `v`
    let turns : Nat := l1 + 1 - s.l
    let ret ← Outcome.fold (fun ret _ => markEdges virtStart upper rank g i v s.k0 k1 ret) s.ret (List.range turns)
    return { k0 := k1, l := max s.l (l1 + 1), ret }
  else return s

def markType1Conflicts (virtStart : Nat) (order : List (List Nat)) (rank : Std.ExtTreeMap Nat Int)
    (g : AdjacencyList Nat Nat) : Outcome ε (List (Nat × Nat)) :=
  if order.length < 3 then return []
  else
    Outcome.fold (fun ret i => do
      let upper ← .unwrap order[i]?
      let lower ← .unwrap order[i + 1]?
      let s ← Outcome.fold (markVertex virtStart upper lower rank g i) ⟨0, 0, ret⟩ (List.range lower.length)
      return s.ret) [] (List.range' 1 (order.length - 3))

/-- Maps of a vertex to the first of its block and to the next one of it, the last one to the first. `r` is the place on the
previous rank of the last vertex that was aligned in this one. -/
structure Alignment where
  root : Std.ExtTreeMap Nat Nat
  align : Std.ExtTreeMap Nat Nat
  r : Option Nat

/-- Whether an edge of the list ends in `v`. -/
def anyEnd (endOf : Nat → Option Nat) (v : Nat) : List Nat → Outcome ε Bool
  | [] => return false
  | e :: rest => do
    let w ← .unwrap (endOf e)
    if w = v then return true else anyEnd endOf v rest

/-- Whether `w`, on the previous rank, has an edge to `v`, or from it. -/
def joined (g : AdjacencyList Nat Nat) (upToDown : Bool) (v w : Nat) : Outcome ε Bool :=
  if upToDown then do anyEnd g.target v (← g.outgoing w) else do anyEnd g.source v (← g.incoming w)

def upperNeighbours (g : AdjacencyList Nat Nat) (upToDown : Bool) (v : Nat) : List Nat → Outcome ε (List Nat)
  | [] => return []
  | w :: rest => do
    let here ← joined g upToDown v w
    let others ← upperNeighbours g upToDown v rest
    return if here then w :: others else others

/-- Floor and ceiling of half of `n - 1`. -/
def medians (n : Nat) : List Nat := if n % 2 = 0 then [(n - 1) / 2, n / 2] else [(n - 1) / 2]

/-- Whether `pos` lies beyond the last place `r` in the direction of the sweep. -/
def isBeyond (leftToRight : Bool) (r : Option Nat) (pos : Nat) : Bool :=
  match r with
  | none => true
  | some r => if leftToRight then r < pos else pos < r

/-- Aligns `v` with the median `m` of its neighbours, when `v` is free, the edge is not marked and nothing is crossed. -/
def alignMedian (type1 : List (Nat × Nat)) (leftToRight : Bool) (prev upn : List Nat) (v : Nat) (s : Alignment) (m : Nat) :
    Outcome ε Alignment := do
  if (← .unwrap s.align[v]?) = v then
    let um ← .unwrap upn[m]?
    let pos ← position prev um
    if (um, v) ∉ type1 ∧ (v, um) ∉ type1 ∧ isBeyond leftToRight s.r pos = true then
      let align := s.align.insert um v
      let a ← .unwrap s.root[um]?
      let root := s.root.insert v a
      let b ← .unwrap root[v]?
      return ⟨root, align.insert v b, some pos⟩
    else return s
  else return s

def alignVertex (g : AdjacencyList Nat Nat) (type1 : List (Nat × Nat)) (upToDown leftToRight : Bool) (prev : List Nat)
    (s : Alignment) (v : Nat) : Outcome ε Alignment := do
  let upn ← upperNeighbours g upToDown v prev
  if 0 < upn.length then Outcome.fold (alignMedian type1 leftToRight prev upn v) s (medians upn.length)
  else return s

def alignRank (order : List (List Nat)) (g : AdjacencyList Nat Nat) (type1 : List (Nat × Nat)) (upToDown leftToRight : Bool)
    (s : Alignment) (i : Nat) : Outcome ε Alignment := do
  let row ← .unwrap order[i]?
  let prev ← if upToDown then .unwrap order[i - 1]? else .unwrap order[i + 1]?
  Outcome.fold (alignVertex g type1 upToDown leftToRight prev) { s with r := none }
    (if leftToRight then row else row.reverse)

/-- The maps `root` and `align`. -/
def verticalAlignment (vertices : Enumeration Nat) (order : List (List Nat)) (type1 : List (Nat × Nat))
    (g : AdjacencyList Nat Nat) (upToDown leftToRight : Bool) :
    Outcome ε (Std.ExtTreeMap Nat Nat × Std.ExtTreeMap Nat Nat) := do
  if order.length = 0 then .panics
  else
    let own : Std.ExtTreeMap Nat Nat := (g.vertices vertices).foldl (fun map v => map.insert v v) ∅
    let ranks := if upToDown then List.range' 1 (order.length - 1) else (List.range (order.length - 1)).reverse
    let s ← Outcome.fold (alignRank order g type1 upToDown leftToRight) ⟨own, own, none⟩ ranks
    return (s.root, s.align)

end Panopticon.Sugiyama
