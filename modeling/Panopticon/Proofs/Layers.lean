import Panopticon.Sugiyama.Placement
import Panopticon.Proofs.Store

/-! A layout lists every vertex of a graph once, in the row of its rank. -/

namespace Panopticon.Proofs.Layers
open Panopticon.Library Panopticon.Sugiyama

variable {N E ε : Type}

def rankOf (order : List (List Nat)) (v : Nat) : Nat := order.findIdx (v ∈ ·)

def placeOf (order : List (List Nat)) (v : Nat) : Nat := (order[rankOf order v]?.getD []).idxOf v

structure Layered (g : AdjacencyList N E) (order : List (List Nat)) : Prop where
  valid : g.Consistent
  nodup : order.flatten.Nodup
  listed : ∀ v, v ∈ order.flatten ↔ (g.vertexLabel v).isSome

variable {g : AdjacencyList N E} {order : List (List Nat)} {row : List Nat} {i k v : Nat}

theorem rankOf_eq (nodup : order.flatten.Nodup) (found : order[i]? = some row) (member : v ∈ row) : rankOf order v = i := by
  obtain ⟨inside, rfl⟩ := List.getElem?_eq_some_iff.mp found
  apply (List.findIdx_eq inside).mpr
  refine ⟨by simpa using member, fun j before => ?_⟩
  have disjoint := (List.nodup_flatten.mp nodup).2
  rw [List.pairwise_iff_getElem] at disjoint
  simpa using fun also => disjoint j i (by omega) inside before also member

theorem placeOf_eq (nodup : order.flatten.Nodup) (found : order[i]? = some row) (place : row[k]? = some v) :
    placeOf order v = k := by
  have rowNodup := (List.nodup_flatten.mp nodup).1 row (List.mem_of_getElem? found)
  obtain ⟨inside, rfl⟩ := List.getElem?_eq_some_iff.mp place
  rw [placeOf, rankOf_eq nodup found (List.getElem_mem inside), found]
  exact rowNodup.idxOf_getElem k inside

theorem place_of_mem (nodup : order.flatten.Nodup) (found : order[i]? = some row) (member : v ∈ row) :
    row[placeOf order v]? = some v := by
  obtain ⟨k, place⟩ := List.mem_iff_getElem?.mp member
  rw [placeOf_eq nodup found place, place]

theorem position_returns (nodup : order.flatten.Nodup) (found : order[i]? = some row) (member : v ∈ row) :
    (position row v : Outcome ε Nat) = .returns (placeOf order v) := by
  have rank := rankOf_eq nodup found member
  have index : row.findIdx? (· = v) = some (row.idxOf v) := by
    rw [List.findIdx?_eq_some_iff_findIdx_eq]
    exact ⟨List.idxOf_lt_length_of_mem member, congrArg (row.findIdx ·) (funext fun x => (beq_eq_decide x v).symm)⟩
  simp [position, index, placeOf, rank, found, Outcome.unwrap]

theorem row_sorted (nodup : order.flatten.Nodup) (found : order[i]? = some row) :
    row.Pairwise fun u v => placeOf order u < placeOf order v := by
  rw [List.pairwise_iff_getElem]
  intro k l first second before
  rw [placeOf_eq nodup found (List.getElem?_eq_getElem first), placeOf_eq nodup found (List.getElem?_eq_getElem second)]
  exact before

theorem Layered.exists_row (layered : Layered g order) (labelled : (g.vertexLabel v).isSome) :
    ∃ row, order[rankOf order v]? = some row ∧ v ∈ row := by
  obtain ⟨row, member, inside⟩ := List.mem_flatten.mp ((layered.listed v).mpr labelled)
  obtain ⟨i, found⟩ := List.mem_iff_getElem?.mp member
  exact ⟨row, by rw [rankOf_eq layered.nodup found inside, found], inside⟩

theorem Layered.mem_iff (layered : Layered g order) (found : order[i]? = some row) :
    v ∈ row ↔ (g.vertexLabel v).isSome ∧ rankOf order v = i := by
  constructor
  · intro member
    exact ⟨(layered.listed v).mp (List.mem_flatten.mpr ⟨row, List.mem_of_getElem? found, member⟩),
      rankOf_eq layered.nodup found member⟩
  · intro holds
    obtain ⟨labelled, rank⟩ := holds
    obtain ⟨row', found', member⟩ := layered.exists_row labelled
    rw [rank, found] at found'
    cases found'
    exact member

theorem Layered.rank_lt (layered : Layered g order) (labelled : (g.vertexLabel v).isSome) : rankOf order v < order.length := by
  obtain ⟨row, found, -⟩ := layered.exists_row labelled
  exact (List.getElem?_eq_some_iff.mp found).1

theorem Layered.ofLists {labels : List N} {arcs : List (E × Nat × Nat)}
    (inside : ∀ arc ∈ arcs, arc.2.1 < labels.length ∧ arc.2.2 < labels.length)
    (rows : order.flatten.Perm (List.range labels.length)) : Layered (AdjacencyList.ofLists labels arcs) order := by
  refine ⟨.ofLists labels arcs, rows.nodup_iff.mpr List.nodup_range, fun v => ?_⟩
  rw [rows.mem_iff, (AdjacencyList.Lists.ofLists inside).vertexLabel]
  simp

end Panopticon.Proofs.Layers
