import Panopticon.Proofs.Reading

/-! A stack of layers read cell by cell, and cut up into areas of one layer each. -/

namespace Panopticon.Proofs.Region
open Library Panopticon.Region

def Has (area : Area) (a : Nat) : Prop := area.start ≤ a ∧ a < area.stop

instance (area : Area) (a : Nat) : Decidable (Has area a) := inferInstanceAs (Decidable (_ ∧ _))

/-- The cell at an offset of an opaque layer. -/
def cellAt (offset : Nat) : OpaqueLayer → Cell
  | .undefined _ => none
  | .defined data => data[offset]?

/-- The cell at `a`, going down a stack from its top. -/
def topCell : List (Area × Layer) → Nat → Cell
  | [], _ => none
  | (area, layer) :: below, a =>
    if Has area a then
      match layer with
      | .opaqueLayer layer => cellAt (a - area.start) layer
      | .sparse map => map[a - area.start]?.getD (topCell below a)
    else topCell below a

theorem getElem_iter {layer : OpaqueLayer} {offset : Nat} (inside : offset < layer.len) :
    (cells layer.iter)[offset]? = some (cellAt offset layer) := by
  cases layer with
  | undefined len =>
    have inside : offset < len := inside
    simp [OpaqueLayer.iter, cells, cellAt, inside]
  | defined data =>
    have inside : offset < data.length := inside
    simp [OpaqueLayer.iter, cells, cellAt, inside]

private theorem getElem_covered {entry : Area × Layer} {below : List Cell} (ordered : entry.1.start < entry.1.stop)
    (inside : entry.1.stop ≤ below.length) (fits : Fits entry) (a : Nat) :
    (covered below entry)[a]? =
      if Has entry.1 a then (onTop (segment below entry.1.start entry.1.stop) entry.2)[a - entry.1.start]? else below[a]? := by
  have low : (below.take entry.1.start).length = entry.1.start := by
    rw [List.length_take]
    omega
  have middle := (length_onTop ordered inside).mpr fits
  rw [covered]
  by_cases has : Has entry.1 a
  · obtain ⟨above, before⟩ := has
    rw [if_pos ⟨above, before⟩, List.getElem?_append_left (by rw [List.length_append]; omega), List.getElem?_append_right (by omega), low]
  · rw [if_neg has]
    rcases Nat.lt_or_ge a entry.1.start with before | after
    · rw [List.append_assoc, List.getElem?_append_left (by omega), List.getElem?_take_of_lt before]
    · have beyond : entry.1.stop ≤ a := Nat.not_lt.mp fun before => has ⟨after, before⟩
      rw [List.getElem?_append_right (by rw [List.length_append]; omega), List.length_append, low, middle,
        List.getElem?_drop]
      congr 1
      omega

/-- Areas inside a region of the given size, and opaque layers as large as their areas. -/
def Covers (size : Nat) (calls : List (Area × Layer)) : Prop :=
  ∀ call ∈ calls, call.1.start < call.1.stop ∧ call.1.stop ≤ size ∧ Fits call

theorem length_covereds {base : List Cell} (calls : List (Area × Layer)) (covers : Covers base.length calls) :
    (calls.foldl covered base).length = base.length := by
  induction calls using List.reverseRecOn with
  | nil => rfl
  | append_singleton calls call ih =>
    have before := ih fun entry member => covers entry (List.mem_append_left _ member)
    obtain ⟨ordered, inside, fits⟩ := covers call (by simp)
    rw [List.foldl_append, List.foldl_cons, List.foldl_nil, length_covered ordered (by rw [before]; exact inside) fits, before]

private theorem getElem_covereds (root : OpaqueLayer) (calls : List (Area × Layer)) (covers : Covers root.len calls) {a : Nat}
    (inside : a < root.len) : (calls.foldl covered (cells root.iter))[a]? =
      some (topCell (((⟨0, root.len⟩, .opaqueLayer root) :: calls).reverse) a) := by
  have total : (cells root.iter).length = root.len := by rw [length_cells, length_iter]
  induction calls using List.reverseRecOn with
  | nil =>
    have has : Has ⟨0, root.len⟩ a := ⟨Nat.zero_le a, inside⟩
    simpa [topCell, has] using getElem_iter inside
  | append_singleton calls call ih =>
    have earlier : Covers root.len calls := fun entry member => covers entry (List.mem_append_left _ member)
    obtain ⟨ordered, within, fits⟩ := covers call (by simp)
    have size : (calls.foldl covered (cells root.iter)).length = _ := length_covereds calls (by rwa [total])
    obtain ⟨area, layer⟩ := call
    rw [List.foldl_append, List.foldl_cons, List.foldl_nil, getElem_covered ordered (by omega) fits]
    rw [← List.cons_append, List.reverse_append, List.reverse_singleton, List.singleton_append]
    unfold topCell
    split_ifs with has
    · obtain ⟨above, before⟩ := has
      cases layer with
      | opaqueLayer layer =>
        have exact : layer.len = area.stop - area.start := fits layer rfl
        have short : a - area.start < area.stop - area.start := Nat.sub_lt_sub_right above before
        exact getElem_iter (exact ▸ short)
      | sparse map =>
        simp only [onTop, overwrite, segment, List.getElem?_mapIdx, List.getElem?_drop, Nat.zero_add]
        rw [Nat.add_sub_cancel' above, List.getElem?_take_of_lt before, ih earlier]
        rfl
    · exact ih earlier

/-- The layers of the areas an address lies in. -/
def layersAt (a : Nat) (v : List (Area × Layer)) : List Layer := (v.filter fun entry => Has entry.1 a).map Prod.snd

/-- What is left of an area holds its addresses outside of the new one, each once. -/
theorem filter_uncovered {x : Area} (ordered : x.start ≤ x.stop) (y : Area) (a : Nat) :
    ((uncovered x y).filter fun area => Has area a).length = if Has y a ∧ ¬Has x a then 1 else 0 := by
  simp only [uncovered]
  split_ifs with inside apart start behind stop before both low high high <;> simp_all [Has, List.filter_cons] <;> grind

private theorem layersAt_uncovered {x : Area} (ordered : x.start ≤ x.stop) (y : Area × Layer) (a : Nat) :
    layersAt a ((uncovered x y.1).map (·, y.2)) = if Has y.1 a ∧ ¬Has x a then [y.2] else [] := by
  have count := filter_uncovered ordered y.1 a
  have same : layersAt a ((uncovered x y.1).map (·, y.2)) =
      List.replicate ((uncovered x y.1).filter fun area => Has area a).length y.2 := by
    rw [layersAt, List.filter_map, List.map_map, ← List.map_const']
    rfl
  rw [same, count]
  split_ifs <;> rfl

private theorem layersAt_add {x : Area × Layer} (ordered : x.1.start ≤ x.1.stop) (v : List (Area × Layer)) (a : Nat) :
    layersAt a (add x v) = if Has x.1 a then [x.2] else layersAt a v := by
  have parts : layersAt a (v.flatMap fun y => (uncovered x.1 y.1).map (·, y.2)) = if Has x.1 a then [] else layersAt a v := by
    induction v with
    | nil => simp [layersAt]
    | cons y v ih =>
      have split (first last : List (Area × Layer)) : layersAt a (first ++ last) = layersAt a first ++ layersAt a last := by
        simp only [layersAt, List.filter_append, List.map_append]
      rw [List.flatMap_cons, split, ih, layersAt_uncovered ordered]
      by_cases hidden : Has x.1 a
      · simp [hidden]
      · by_cases has : Has y.1 a <;> simp [hidden, has, layersAt]
  rw [add, ← List.flatMap_eq_foldl, layersAt, List.filter_append, List.map_append]
  rw [layersAt] at parts
  rw [parts]
  by_cases has : Has x.1 a <;> simp [has]

private theorem layersAt_stack (stack : List (Area × Layer)) (ordered : ∀ entry ∈ stack, entry.1.start ≤ entry.1.stop) (a : Nat) :
    layersAt a (stack.foldl (fun ret x => add x ret) []) =
      ((stack.reverse.find? fun entry => Has entry.1 a).map Prod.snd).toList := by
  induction stack using List.reverseRecOn with
  | nil => rfl
  | append_singleton stack x ih =>
    rw [List.foldl_append, List.foldl_cons, List.foldl_nil, layersAt_add (ordered x (by simp)),
      ih fun entry member => ordered entry (List.mem_append_left _ member), List.reverse_append, List.reverse_singleton,
      List.singleton_append, List.find?_cons]
    by_cases has : Has x.1 a <;> simp [has]

private theorem layersAt_flatten (region : Region) {a : Nat} {layer : Layer}
    (one : layersAt a (region.stack.foldl (fun ret x => add x ret) []) = [layer]) : layersAt a region.flatten = [layer] := by
  have perm := ((List.perm_insertionSort (fun a b : Area × Layer => a.1.start ≤ b.1.start)
    (region.stack.foldl (fun ret x => add x ret) [])).filter fun entry => Has entry.1 a).map Prod.snd
  rw [layersAt] at one
  rw [one] at perm
  exact List.perm_singleton.mp perm

private theorem exists_topmost {root : OpaqueLayer} {calls : List (Area × Layer)} (covers : Covers root.len calls) {a : Nat}
    (inside : a < root.len) (region : Region) (stack : region.stack = (⟨0, root.len⟩, .opaqueLayer root) :: calls) :
    ∃ lower area layer upper, region.stack = lower ++ (area, layer) :: upper ∧ Has area a ∧
      (∀ entry ∈ upper, ¬Has entry.1 a) ∧ layersAt a region.flatten = [layer] := by
  have ordered : ∀ entry ∈ region.stack, entry.1.start ≤ entry.1.stop := by
    rw [stack]
    intro entry member
    rcases List.mem_cons.mp member with rfl | member
    · exact Nat.zero_le _
    · exact Nat.le_of_lt (covers entry member).1
  have layers := layersAt_stack region.stack ordered a
  -- the root is everywhere
  have found : (region.stack.reverse.find? fun entry => Has entry.1 a).isSome = true := by
    rw [List.find?_isSome]
    refine ⟨(⟨0, root.len⟩, .opaqueLayer root), by simp [stack], ?_⟩
    exact decide_eq_true ⟨Nat.zero_le a, inside⟩
  obtain ⟨⟨area, layer⟩, first⟩ := Option.isSome_iff_exists.mp found
  rw [first] at layers
  obtain ⟨has, upper, lower, split, above⟩ := List.find?_eq_some_iff_append.mp first
  refine ⟨lower.reverse, area, layer, upper.reverse, ?_, of_decide_eq_true has, ?_, layersAt_flatten region layers⟩
  · have whole := congrArg List.reverse split
    simpa using whole
  · intro entry member
    simpa using above entry (List.mem_reverse.mp member)

/-- Reading a region gives at every address the cell of the stack there, and flattening it gives areas in order that
show at every address the topmost layer, once. -/
theorem flatten_iter (root : OpaqueLayer) (calls : List (Area × Layer)) (covers : Covers root.len calls) :
    ∃ region it list, ((Region.new root).coverAll calls : Outcome Empty Region) = .returns region ∧
      region.stack = (⟨0, root.len⟩, .opaqueLayer root) :: calls ∧
      (region.iter : Outcome Empty LayerIter) = .returns it ∧ Yields it list ∧ list.length = region.size ∧
      (∀ a < region.size, list[a]? = some (topCell region.stack.reverse a)) ∧
      region.flatten.Pairwise (fun x y => x.1.start ≤ y.1.start) ∧
      ∀ a < region.size, ∃ lower area layer upper, region.stack = lower ++ (area, layer) :: upper ∧ Has area a ∧
        (∀ entry ∈ upper, ¬Has entry.1 a) ∧ layersAt a region.flatten = [layer] := by
  have accepted : calls.filter (Accepted root.len) = calls := by
    rw [List.filter_eq_self]
    intro call member
    obtain ⟨-, inside, fits⟩ := covers call member
    have enough : Accepted root.len call := ⟨inside, fun layer same => (fits layer same).ge⟩
    simpa using enough
  have ordered : Proper calls := fun call member => (covers call member).1
  have inside : ∀ call ∈ calls, call.1.stop ≤ root.iter.len := by
    intro call member
    rw [length_iter]
    exact (covers call member).2.1
  obtain ⟨it, folded, itCells, -⟩ := (applyLayers_spec (ε := Empty) ordered inside).1 fun call member => (covers call member).2.2
  have total : (cells root.iter).length = root.len := by rw [length_cells, length_iter]
  refine ⟨⟨(⟨0, root.len⟩, .opaqueLayer root) :: calls, root.len⟩, it, cells it, ?_, rfl, ?_, yields_cells it, ?_, ?_, ?_, ?_⟩
  · rw [coverAll_spec calls (Region.new root) rfl, accepted]
    rfl
  · simpa [Region.iter, Outcome.unwrap, Layer.asOpaque] using folded
  · rw [itCells, length_covereds calls (by rwa [total]), total]
  · intro a inside
    rw [itCells]
    exact getElem_covereds root calls covers inside
  · exact List.pairwise_insertionSort _ _
  · intro a inside
    exact exists_topmost covers inside _ rfl

/-- A byte of a sparse layer over the second half of four bytes. -/
theorem flatten_iter_patched : ∃ region, ((Region.new (.defined [1, 2, 3, 4])).coverAll
    [(⟨2, 4⟩, .sparse (({} : Std.ExtTreeMap Nat Cell).insert 1 (some 9)))] : Outcome Empty Region) = .returns region ∧
      region.flatten.Pairwise fun x y => x.1.start ≤ y.1.start := by
  have covers : Covers 4 [(⟨2, 4⟩, .sparse (({} : Std.ExtTreeMap Nat Cell).insert 1 (some 9)))] := by
    simp [Covers, Fits, Layer.asOpaque]
  obtain ⟨region, it, list, returned, -, -, -, -, -, sorted, -⟩ := flatten_iter (.defined [1, 2, 3, 4]) _ covers
  exact ⟨region, returned, sorted⟩

end Panopticon.Proofs.Region
