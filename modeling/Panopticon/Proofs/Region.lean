import Panopticon.Region

/-! Reading a region. The iterator tree denotes a list of cells, cutting it takes a
segment of the list, and a stack of layers of the right sizes denotes the cells
of its root with each layer in turn written over its area. -/

namespace Panopticon.Proofs.Region
open Library Panopticon.Region

/-- What a sparse layer that starts at `pos` makes of the cells below. -/
def overwrite (map : Std.ExtTreeMap Nat Cell) (pos : Nat) (below : List Cell) : List Cell :=
  below.mapIdx fun i covered => map[pos + i]?.getD covered

def cells : LayerIter → List Cell
  | .undefined r => List.replicate r none
  | .defined none => []
  | .defined (some buf) => buf.map some
  | .sparse map mapped pos => overwrite map pos (cells mapped)
  | .concat car cdr => cells car ++ cells cdr

theorem length_cells (it : LayerIter) : (cells it).length = it.len := by
  induction it with
  | undefined r => simp [cells, LayerIter.len]
  | defined buf => cases buf <;> simp [cells, LayerIter.len]
  | sparse map mapped pos ih => simp [cells, LayerIter.len, overwrite, ih]
  | concat car cdr first last => simp [cells, LayerIter.len, first, last]

theorem next_cells (it : LayerIter) : it.next.1 = (cells it).head? ∧ cells it.next.2 = (cells it).tail := by
  induction it with
  | undefined r => cases r <;> simp [LayerIter.next, cells, List.replicate_succ]
  | defined buf =>
    cases buf with
    | none => simp [LayerIter.next, cells]
    | some buf =>
      rcases buf with _ | ⟨b, _ | ⟨b', rest⟩⟩
      · simp [LayerIter.next, cells]
      · simp [LayerIter.next, cells]
      · simp [LayerIter.next, cells]
  | sparse map mapped pos ih =>
    cases below : cells mapped with
    | nil =>
      have none : mapped.next.1 = none := by simp [ih.1, below]
      simp only [LayerIter.next]
      split
      · next stepped => simp [stepped] at none
      · next stepped =>
        have rest := ih.2
        simp only [stepped, below, List.tail_nil] at rest
        simp [cells, below, rest, overwrite]
    | cons covered others =>
      have some : mapped.next.1 = some covered := by simp [ih.1, below]
      simp only [LayerIter.next]
      split
      · next stepped =>
        have rest := ih.2
        simp only [stepped, below, List.tail_cons, Option.some.injEq] at rest some
        subst some
        simp [cells, below, rest, overwrite, List.mapIdx_cons, Nat.add_assoc, Nat.add_comm 1]
      · next stepped => simp [stepped] at some
  | concat car cdr first last =>
    cases below : cells car with
    | nil =>
      have none : car.next.1 = none := by simp [first.1, below]
      simp only [LayerIter.next]
      split
      · next stepped => simp [stepped] at none
      · next stepped =>
        have rest := first.2
        simp only [stepped, below, List.tail_nil] at rest
        simp [cells, below, rest, last]
    | cons cell others =>
      have some : car.next.1 = some cell := by simp [first.1, below]
      simp only [LayerIter.next]
      split
      · next stepped =>
        have rest := first.2
        simp only [stepped, below, List.tail_cons, Option.some.injEq] at rest some
        subst some
        simp [cells, below, rest]
      · next stepped => simp [stepped] at some

/-- Calling `next` until it answers `None` gives these cells. -/
inductive Yields : LayerIter → List Cell → Prop
  | done {it : LayerIter} : it.next.1 = none → Yields it []
  | more {it : LayerIter} {cell : Cell} {rest : List Cell} : it.next.1 = some cell → Yields it.next.2 rest →
      Yields it (cell :: rest)

theorem yields_cells (it : LayerIter) : Yields it (cells it) := by
  generalize held : cells it = list
  induction list generalizing it with
  | nil => exact .done (by simp [next_cells it, held])
  | cons cell rest ih =>
    refine .more (by simp [next_cells it, held]) (ih _ ?_)
    simp [next_cells it, held]

def segment (list : List Cell) (start stop : Nat) : List Cell := (list.take stop).drop start

private theorem segment_append (first last : List Cell) {start stop : Nat} (within : start ≤ first.length)
    (beyond : first.length ≤ stop) :
    segment (first ++ last) start stop = segment first start first.length ++ segment last 0 (stop - first.length) := by
  simp only [segment, List.take_append, List.take_of_length_le beyond, List.take_length, List.drop_zero]
  rw [List.drop_append_of_le_length within]

private theorem segment_append_right (first last : List Cell) {start stop : Nat} (beyond : first.length ≤ start)
    (beyond' : first.length ≤ stop) :
    segment (first ++ last) start stop = segment last (start - first.length) (stop - first.length) := by
  simp only [segment, List.take_append, List.take_of_length_le beyond', List.drop_append, List.drop_eq_nil_of_le beyond,
    List.nil_append]

private theorem overwrite_segment (map : Std.ExtTreeMap Nat Cell) (pos start stop : Nat) (below : List Cell) :
    segment (overwrite map pos below) start stop = overwrite map (pos + start) (segment below start stop) := by
  apply List.ext_getElem?
  intro i
  simp only [segment, overwrite, List.getElem?_drop, List.getElem?_take, List.getElem?_mapIdx]
  split
  · simp [Nat.add_assoc]
  · rfl

/-- Sparse layers over a single opaque one that is not used up. -/
def Plain : LayerIter → Prop
  | .undefined _ => True
  | .defined buf => buf.isSome = true
  | .sparse _ mapped _ => Plain mapped
  | .concat _ _ => False

/-- The range starts behind the end of a single layer. -/
def Overruns (start stop : Nat) (it : LayerIter) : Prop := Plain it ∧ start < stop ∧ it.len < start

theorem Overruns.behind {it : LayerIter} {start stop : Nat} (overrun : Overruns start stop it) :
    start < stop ∧ it.len < start := overrun.2

theorem segment_behind {list : List Cell} {start stop : Nat} (none : stop ≤ start ∨ list.length ≤ start) :
    segment list start stop = [] := by
  simp only [segment, List.drop_eq_nil_iff, List.length_take]
  omega

theorem segment_min (list : List Cell) (start stop : Nat) :
    segment list start (min stop list.length) = segment list start stop := by
  rw [segment, segment, ← List.take_take, List.take_length]

theorem cut_empty {ε : Type} (it : LayerIter) {start stop : Nat} (empty : stop ≤ start) :
    ∃ part, (it.cut start stop : Outcome ε _) = .returns part ∧ cells part = segment (cells it) start stop := by
  refine ⟨.defined none, ?_, (segment_behind (.inl empty)).symm⟩
  unfold LayerIter.cut
  simp [empty]

theorem realEnd_eq (len stop : Nat) : (if len < stop then len else stop) = min stop len := by
  split_ifs <;> omega

theorem difference_eq {ε : Type} {a b : Nat} (le : b ≤ a) : (LayerIter.difference a b : Outcome ε Nat) = .returns (a - b) :=
  if_pos le

theorem difference_panics {ε : Type} {a b : Nat} (less : ¬b ≤ a) : (LayerIter.difference a b : Outcome ε Nat) = .panics :=
  if_neg less

theorem slice_panics {ε : Type} {buf : List UInt8} {start stop : Nat} (outside : ¬(start ≤ stop ∧ stop ≤ buf.length)) :
    (LayerIter.slice buf start stop : Outcome ε _) = .panics := if_neg outside

private theorem slice_eq {ε : Type} {buf : List UInt8} {start stop : Nat} (inside : start ≤ stop ∧ stop ≤ buf.length) :
    (LayerIter.slice buf start stop : Outcome ε _) = .returns ((buf.take stop).drop start) := if_pos inside

theorem cut_segment {ε : Type} (it : LayerIter) (start stop : Nat) (within : ¬Overruns start stop it) :
    ∃ part, (it.cut start stop : Outcome ε _) = .returns part ∧ cells part = segment (cells it) start stop := by
  induction it generalizing start stop with
  | undefined r =>
    rcases Nat.lt_or_ge start stop with some | none
    · have inside : start ≤ min stop r := by
        have reach : ¬r < start := fun behind => within ⟨trivial, some, behind⟩
        omega
      refine ⟨.undefined (min stop r - start), ?_, ?_⟩
      · unfold LayerIter.cut
        simp only [if_neg (Nat.not_le.mpr some), realEnd_eq]
        simp only [LayerIter.len, difference_eq inside, Outcome.returns_bind, Outcome.pure_eq]
      · simp [cells, segment]
    · exact cut_empty _ none
  | defined buf =>
    rcases Nat.lt_or_ge start stop with some | none
    · cases buf with
      | none =>
        unfold LayerIter.cut
        simp [Nat.not_le.mpr some, cells, segment]
      | some buf =>
        have inside : start ≤ min stop buf.length ∧ min stop buf.length ≤ buf.length := by
          have reach : ¬buf.length < start := fun behind => within ⟨rfl, some, behind⟩
          omega
        refine ⟨.defined (.some ((buf.take (min stop buf.length)).drop start)), ?_, ?_⟩
        · unfold LayerIter.cut
          simp only [if_neg (Nat.not_le.mpr some), realEnd_eq]
          simp only [LayerIter.len, slice_eq inside, Outcome.pure_eq, Outcome.returns_bind]
        · rw [← segment_min _ start stop]
          simp [cells, segment, List.map_take, List.map_drop]
    · exact cut_empty _ none
  | sparse map mapped pos ih =>
    rcases Nat.lt_or_ge start stop with some | none
    · obtain ⟨part, returned, same⟩ := ih start stop within
      refine ⟨.sparse map part (pos + start), ?_, ?_⟩
      · unfold LayerIter.cut
        simp [Nat.not_le.mpr some, returned]
      · simp only [cells, same, overwrite_segment]
    · exact cut_empty _ none
  | concat car cdr first last =>
    rcases Nat.lt_or_ge start stop with some | none
    · have carLen := length_cells car
      have cdrLen := length_cells cdr
      generalize ended : min stop (car.len + cdr.len) = realEnd
      have tail (from' : Nat) : segment (cells cdr) from' (realEnd - car.len) = segment (cells cdr) from' (stop - car.len) := by
        rw [← segment_min _ from' (stop - car.len), cdrLen]
        congr 1
        omega
      unfold LayerIter.cut
      simp only [if_neg (Nat.not_le.mpr some), realEnd_eq]
      simp only [LayerIter.len, ended, cells]
      by_cases left : start < car.len ∧ realEnd ≤ car.len
      · -- the part behind the boundary is empty
        obtain ⟨part, returned, same⟩ := first start stop fun overrun => by have behind := overrun.behind; omega
        refine ⟨part, by simp only [if_pos left, returned], ?_⟩
        rw [same, ← segment_min _ start stop, ← segment_min (cells car ++ cells cdr) start stop, List.length_append,
          carLen, cdrLen, ended, segment, segment, List.take_append_of_le_length (by omega)]
        congr 2
        omega
      · rw [if_neg left]
        by_cases right : car.len ≤ start ∧ car.len < realEnd
        · obtain ⟨part, returned, same⟩ := last (start - car.len) (realEnd - car.len) fun overrun => by
            have behind := overrun.behind
            omega
          refine ⟨part, by simp only [if_pos right, returned], ?_⟩
          rw [same, tail, segment_append_right _ _ (by omega) (by omega), carLen]
        · obtain ⟨part, returned, same⟩ := first start car.len fun overrun => by have behind := overrun.behind; omega
          obtain ⟨part', returned', same'⟩ := last 0 (realEnd - car.len) fun overrun => by
            have behind := overrun.behind
            omega
          have reached : car.len ≤ realEnd := by omega
          refine ⟨.concat part part', ?_, ?_⟩
          · simp only [if_neg right, returned, Outcome.returns_bind, difference_eq reached, Outcome.pure_eq, returned']
          · rw [cells, same, same', tail]
            rcases Nat.lt_or_ge car.len start with behind | inside
            · rw [segment_behind (.inl (Nat.le_of_lt behind)), segment_behind (.inr (by omega)), segment_behind (.inr (by
                rw [List.length_append]
                omega)), List.append_nil]
            · rw [segment_append _ _ (by omega) (by omega), carLen]
    · exact cut_empty _ none

theorem cut_cells {ε : Type} (it : LayerIter) (start : Nat) {stop : Nat} (inside : stop ≤ it.len) :
    ∃ part, (it.cut start stop : Outcome ε _) = .returns part ∧ cells part = segment (cells it) start stop := by
  apply cut_segment
  intro overrun
  have behind := overrun.behind
  omega

def onTop (below : List Cell) : Layer → List Cell
  | .opaqueLayer layer => cells layer.iter
  | .sparse map => overwrite map 0 below

theorem filter_cells (layer : Layer) (it : LayerIter) : cells (layer.filter it) = onTop (cells it) layer := by
  cases layer <;> rfl

theorem length_iter (layer : OpaqueLayer) : layer.iter.len = layer.len := by
  cases layer <;> rfl

/-- The cells of a region after one more layer. -/
def covered (below : List Cell) (entry : Area × Layer) : List Cell :=
  below.take entry.1.start ++ onTop (segment below entry.1.start entry.1.stop) entry.2 ++ below.drop entry.1.stop

def Fits (entry : Area × Layer) : Prop :=
  ∀ layer, entry.2.asOpaque = some layer → layer.len = entry.1.stop - entry.1.start

theorem length_onTop {entry : Area × Layer} {below : List Cell} (ordered : entry.1.start < entry.1.stop)
    (inside : entry.1.stop ≤ below.length) :
    (onTop (segment below entry.1.start entry.1.stop) entry.2).length = entry.1.stop - entry.1.start ↔ Fits entry := by
  obtain ⟨area, layer⟩ := entry
  cases layer with
  | opaqueLayer layer => simp [onTop, Fits, Layer.asOpaque, length_cells, length_iter]
  | sparse map =>
    simp only [onTop, overwrite, segment, List.length_mapIdx, List.length_drop, List.length_take, Fits, Layer.asOpaque]
    simp only [reduceCtorEq, false_implies, implies_true, iff_true] at inside ⊢
    omega

theorem length_covered {entry : Area × Layer} {below : List Cell} (ordered : entry.1.start < entry.1.stop)
    (inside : entry.1.stop ≤ below.length) (fits : Fits entry) : (covered below entry).length = below.length := by
  simp only [covered, List.length_append, (length_onTop ordered inside).mpr fits, List.length_take, List.length_drop]
  omega

private theorem applyLayer_spec {ε : Type} {ret : LayerIter} {entry : Area × Layer} (ordered : entry.1.start < entry.1.stop)
    (inside : entry.1.stop ≤ ret.len) :
    (Fits entry → ∃ tmp, (applyLayer ret entry : Outcome ε _) = .returns tmp ∧ cells tmp = covered (cells ret) entry) ∧
    (¬ Fits entry → (applyLayer ret entry : Outcome ε _) = .panics) := by
  obtain ⟨src, cutSrc, srcCells⟩ := cut_cells (ε := ε) ret entry.1.start inside
  obtain ⟨low, cutLow, lowCells⟩ := cut_cells (ε := ε) ret 0 (show entry.1.start ≤ ret.len by omega)
  obtain ⟨high, cutHigh, highCells⟩ := cut_cells (ε := ε) ret entry.1.stop (Nat.le_refl ret.len)
  have total := length_cells ret
  have srcLen : src.len = entry.1.stop - entry.1.start := by
    rw [← length_cells, srcCells]
    simp only [segment, List.length_drop, List.length_take]
    omega
  have lowLen : low.len = entry.1.start := by
    rw [← length_cells, lowCells]
    simp only [segment, List.drop_zero, List.length_take]
    omega
  have highLen : high.len = ret.len - entry.1.stop := by
    rw [← length_cells, highCells]
    simp only [segment, List.length_drop, List.length_take]
    omega
  have topLen : (entry.2.filter src).len = entry.1.stop - entry.1.start ↔ Fits entry := by
    rw [← length_cells, filter_cells, srcCells]
    exact length_onTop ordered (by omega)
  have checked : (assertEq src.len (entry.1.stop - entry.1.start) : Outcome ε Unit) = .returns () := by
    simp [assertEq, srcLen]
  have room : (LayerIter.difference entry.1.stop entry.1.start : Outcome ε Nat) = .returns (entry.1.stop - entry.1.start) := by
    simp [LayerIter.difference, Nat.le_of_lt ordered]
  have reduced : (applyLayer ret entry : Outcome ε _) = (keepBefore ret entry.1 (entry.2.filter src) >>= fun tmp =>
      keepAfter ret entry.1 tmp >>= fun tmp => assertEq ret.len tmp.len >>= fun _ => .returns tmp) := by
    simp only [applyLayer, cutSrc, room, checked, Outcome.returns_bind]
    rfl
  rw [reduced]
  refine ⟨fun fits => ?_, fun unfit => ?_⟩
  · have len := topLen.mpr fits
    obtain ⟨lower, lowered, lowerCells, lowerLen⟩ : ∃ lower,
        (keepBefore ret entry.1 (entry.2.filter src) : Outcome ε _) = .returns lower ∧
        cells lower = (cells ret).take entry.1.start ++ cells (entry.2.filter src) ∧ lower.len = entry.1.stop := by
      by_cases zero : entry.1.start = 0
      · refine ⟨entry.2.filter src, by simp [keepBefore, zero], by simp [zero], by omega⟩
      · have sum : (low.append (entry.2.filter src)).len = entry.1.stop := by
          simp only [LayerIter.append, LayerIter.len]
          omega
        refine ⟨low.append (entry.2.filter src), ?_, ?_, sum⟩
        · simp [keepBefore, zero, cutLow, assertEq, sum]
        · simp [LayerIter.append, cells, lowCells, segment]
    obtain ⟨upper, raised, upperCells, upperLen⟩ : ∃ upper, (keepAfter ret entry.1 lower : Outcome ε _) = .returns upper ∧
        cells upper = cells lower ++ (cells ret).drop entry.1.stop ∧ upper.len = ret.len := by
      by_cases top : entry.1.stop < ret.len
      · refine ⟨lower.append high, by simp [keepAfter, top, cutHigh], ?_, ?_⟩
        · simp [LayerIter.append, cells, highCells, segment, ← total]
        · simp only [LayerIter.append, LayerIter.len]
          omega
      · refine ⟨lower, by simp [keepAfter, top], ?_, by omega⟩
        rw [List.drop_eq_nil_of_le (by omega), List.append_nil]
    refine ⟨upper, by simp [lowered, raised, assertEq, upperLen], ?_⟩
    rw [upperCells, lowerCells, filter_cells, srcCells, covered]
  · have len : (entry.2.filter src).len ≠ entry.1.stop - entry.1.start := fun same => unfit (topLen.mp same)
    by_cases zero : entry.1.start = 0
    · by_cases top : entry.1.stop < ret.len
      · have apart : ret.len ≠ (entry.2.filter src).len + high.len := by omega
        simp [keepBefore, keepAfter, zero, top, cutHigh, assertEq, LayerIter.append, LayerIter.len, apart]
      · have apart : ret.len ≠ (entry.2.filter src).len := by omega
        simp [keepBefore, keepAfter, zero, top, assertEq, apart]
    · have apart : low.len + (entry.2.filter src).len ≠ entry.1.stop := by omega
      simp [keepBefore, zero, cutLow, assertEq, LayerIter.append, LayerIter.len, apart]

def Proper (calls : List (Area × Layer)) : Prop := ∀ call ∈ calls, call.1.start < call.1.stop

def Accepted (size : Nat) (call : Area × Layer) : Prop :=
  call.1.stop ≤ size ∧ ∀ layer, call.2.asOpaque = some layer → call.1.stop - call.1.start ≤ layer.len

instance (size : Nat) : DecidablePred (Accepted size) := fun call =>
  match found : call.2.asOpaque with
  | none => decidable_of_iff (call.1.stop ≤ size) (by simp [Accepted, found])
  | some layer => decidable_of_iff (call.1.stop ≤ size ∧ call.1.stop - call.1.start ≤ layer.len) (by simp [Accepted, found])

private theorem cover_spec {ε : Type} {region : Region} {root : OpaqueLayer} {rest : List (Area × Layer)}
    (stack : region.stack = (⟨0, root.len⟩, .opaqueLayer root) :: rest) (call : Area × Layer) :
    (region.cover call.1 call.2 : Outcome ε _) = .returns
      (if Accepted root.len call then ({ region with stack := region.stack ++ [call] }, true) else (region, false)) := by
  have first : (.unwrap region.stack[0]? : Outcome ε _) = .returns (⟨0, root.len⟩, .opaqueLayer root) := by
    simp [stack, Outcome.unwrap]
  simp only [cover, first, Outcome.returns_bind]
  by_cases inside : call.1.stop ≤ root.len
  · cases found : call.2.asOpaque with
    | none =>
      have accepted : Accepted root.len call := ⟨inside, by simp [found]⟩
      simp [inside, tooSmall, found, accepted]
    | some layer =>
      by_cases small : layer.len < call.1.stop - call.1.start
      · have refused : ¬ Accepted root.len call := fun accepted => by
          have enough := accepted.2 layer found
          omega
        simp [inside, tooSmall, found, small, refused]
      · have accepted : Accepted root.len call := by
          refine ⟨inside, fun layer' same => ?_⟩
          rw [found] at same
          cases same
          omega
        simp [inside, tooSmall, found, small, accepted]
  · have refused : ¬ Accepted root.len call := fun accepted => inside accepted.1
    simp [inside, refused]

theorem coverAll_spec {ε : Type} {root : OpaqueLayer} (calls : List (Area × Layer)) (region : Region)
    {rest : List (Area × Layer)} (stack : region.stack = (⟨0, root.len⟩, .opaqueLayer root) :: rest) :
    (region.coverAll calls : Outcome ε _) =
      .returns { region with stack := region.stack ++ calls.filter (Accepted root.len) } := by
  induction calls generalizing region rest with
  | nil => simp [coverAll, Outcome.fold]
  | cons call calls ih =>
    have step := cover_spec (ε := ε) stack call
    by_cases accepted : Accepted root.len call
    · rw [if_pos accepted] at step
      have grown : region.stack ++ [call] = (⟨0, root.len⟩, .opaqueLayer root) :: (rest ++ [call]) := by simp [stack]
      have later := ih { region with stack := region.stack ++ [call] } grown
      simp only [coverAll, Outcome.fold, step, Outcome.returns_bind, Outcome.pure_eq] at later ⊢
      rw [later]
      simp [accepted]
    · rw [if_neg accepted] at step
      have later := ih region stack
      simp only [coverAll, Outcome.fold, step, Outcome.returns_bind, Outcome.pure_eq] at later ⊢
      rw [later]
      simp [accepted]

/-- Reading through a stack of layers: each is written over its area, until one does not fit. -/
theorem applyLayers_spec {ε : Type} {entries : List (Area × Layer)} (ordered : Proper entries) {ret : LayerIter}
    (inside : ∀ entry ∈ entries, entry.1.stop ≤ ret.len) :
    ((∀ entry ∈ entries, Fits entry) → ∃ it, (Outcome.fold applyLayer ret entries : Outcome ε _) = .returns it ∧
      cells it = entries.foldl covered (cells ret) ∧ it.len = ret.len) ∧
    ((∃ entry ∈ entries, ¬ Fits entry) → (Outcome.fold applyLayer ret entries : Outcome ε _) = .panics) := by
  induction entries generalizing ret with
  | nil => exact ⟨fun _ => ⟨ret, rfl, rfl, rfl⟩, by simp⟩
  | cons entry entries ih =>
    have proper : entry.1.start < entry.1.stop := ordered entry List.mem_cons_self
    have within : entry.1.stop ≤ ret.len := inside entry List.mem_cons_self
    obtain ⟨applies, panics⟩ := applyLayer_spec (ε := ε) proper within
    by_cases fits : Fits entry
    · obtain ⟨tmp, applied, tmpCells⟩ := applies fits
      have same : tmp.len = ret.len := by
        rw [← length_cells, tmpCells, length_covered proper (by rw [length_cells]; exact within) fits, length_cells]
      obtain ⟨reads, stops⟩ := ih (fun entry member => ordered entry (List.mem_cons_of_mem _ member))
        (fun entry member => same ▸ inside entry (List.mem_cons_of_mem _ member))
      simp only [Outcome.fold, applied, Outcome.returns_bind, List.foldl_cons]
      refine ⟨fun all => ?_, fun some => ?_⟩
      · obtain ⟨it, folded, itCells, len⟩ := reads fun entry member => all entry (List.mem_cons_of_mem _ member)
        exact ⟨it, folded, by rw [itCells, tmpCells], by rw [len, same]⟩
      · obtain ⟨other, member, unfit⟩ := some
        refine stops ⟨other, (List.mem_cons.mp member).resolve_left ?_, unfit⟩
        intro here
        exact unfit (here ▸ fits)
    · refine ⟨fun all => absurd (all entry List.mem_cons_self) fits, fun _ => ?_⟩
      simp only [Outcome.fold, panics fits, Outcome.panics_bind]

/-- A region can be read after any calls of `cover` exactly when no call inside it was made with an opaque layer larger than
its area. -/
theorem iter_readable_iff {ε : Type} (root : OpaqueLayer) {calls : List (Area × Layer)} (proper : Proper calls) :
    ∃ region, ((Region.new root).coverAll calls : Outcome ε Region) = .returns region ∧
      ((∃ it list, (region.iter : Outcome ε LayerIter) = .returns it ∧ Yields it list ∧ list.length = region.size) ↔
        ∀ call ∈ calls, call.1.stop ≤ root.len → ∀ layer, call.2.asOpaque = some layer →
          layer.len ≤ call.1.stop - call.1.start) := by
  refine ⟨_, coverAll_spec calls (Region.new root) rfl, ?_⟩
  have ordered : Proper (calls.filter (Accepted root.len)) := fun entry member => proper entry (List.mem_of_mem_filter member)
  have within : ∀ entry ∈ calls.filter (Accepted root.len), entry.1.stop ≤ root.iter.len := by
    intro entry member
    have accepted : Accepted root.len entry := by simpa using List.of_mem_filter member
    rw [length_iter]
    exact accepted.1
  obtain ⟨reads, stops⟩ := applyLayers_spec (ε := ε) ordered within
  have unfolded : (Region.iter { Region.new root with
      stack := (Region.new root).stack ++ calls.filter (Accepted root.len) } : Outcome ε _) =
      Outcome.fold applyLayer root.iter (calls.filter (Accepted root.len)) := by
    simp [Region.iter, Region.new, Outcome.unwrap, Layer.asOpaque]
  rw [unfolded]
  constructor
  · intro holds call member inside layer found
    obtain ⟨it, list, folded, _, _⟩ := holds
    by_contra large
    have accepted : Accepted root.len call := by
      refine ⟨inside, fun layer' same => ?_⟩
      rw [found] at same
      cases same
      omega
    have panicked := stops ⟨call, List.mem_filter.mpr ⟨member, by simpa using accepted⟩, fun fits => large (by
      rw [fits layer found])⟩
    rw [folded] at panicked
    cases panicked
  · intro small
    have fitting : ∀ entry ∈ calls.filter (Accepted root.len), Fits entry := by
      intro entry member layer found
      obtain ⟨inside, enough⟩ : Accepted root.len entry := by simpa using List.of_mem_filter member
      exact Nat.le_antisymm (small entry (List.mem_of_mem_filter member) inside layer found) (enough layer found)
    obtain ⟨it, folded, -, len⟩ := reads fitting
    exact ⟨it, cells it, folded, yields_cells it, by rw [length_cells, len, length_iter]; rfl⟩

def oversized : List (Area × Layer) := [(⟨1, 3⟩, .opaqueLayer (.defined [1, 2, 3]))]

theorem oversized_proper : Proper oversized := by simp [Proper, oversized]

theorem oversized_unreadable : Proper oversized ∧ ¬ ∃ region,
    ((Region.new (.undefined 4)).coverAll oversized : Outcome Empty Region) = .returns region ∧
      ∃ it list, (region.iter : Outcome Empty LayerIter) = .returns it ∧ Yields it list ∧ list.length = region.size := by
  refine ⟨oversized_proper, ?_⟩
  intro holds
  obtain ⟨region, returned, it, list, read, _, _⟩ := holds
  have panicked : ((Region.new (.undefined 4)).coverAll oversized >>= Region.iter : Outcome Empty LayerIter) = .panics := rfl
  rw [returned, Outcome.returns_bind, read] at panicked
  cases panicked

/-- Two bytes over two cells, and an opaque layer that is too long but lies beyond the end. -/
def measured : List (Area × Layer) :=
  [(⟨1, 3⟩, .opaqueLayer (.defined [1, 2])), (⟨3, 9⟩, .opaqueLayer (.undefined 8))]

theorem oversized_readable_iff : (∃ region,
    ((Region.new (.undefined 4)).coverAll oversized : Outcome Empty Region) = .returns region ∧
      ((∃ it list, (region.iter : Outcome Empty LayerIter) = .returns it ∧ Yields it list ∧ list.length = region.size) ↔
        ∀ call ∈ oversized, call.1.stop ≤ (OpaqueLayer.undefined 4).len → ∀ layer, call.2.asOpaque = some layer →
          layer.len ≤ call.1.stop - call.1.start)) ∧
    ∃ region, ((Region.new (.undefined 4)).coverAll measured : Outcome Empty Region) = .returns region ∧
      ∃ it list, (region.iter : Outcome Empty LayerIter) = .returns it ∧ Yields it list ∧ list.length = region.size := by
  refine ⟨iter_readable_iff _ oversized_proper, ?_⟩
  obtain ⟨region, returned, readable⟩ := @iter_readable_iff Empty (.undefined 4) measured (by simp [Proper, measured])
  refine ⟨region, returned, readable.mpr ?_⟩
  simp [measured, Layer.asOpaque, OpaqueLayer.len]

end Panopticon.Proofs.Region
