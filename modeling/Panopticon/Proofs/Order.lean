import Panopticon.Library.Dominance
import Panopticon.Order
import Panopticon.Proofs.Store

/-! The order is a weak topological order. Visits are described by what they put on
the stack and what they complete; both add up over the successors of a vertex,
and a vertex whose successors reach nothing below it completes everything
above it. -/

namespace Panopticon
open Library

namespace HierarchicalOrdering
variable {α : Type}

mutual
/-- The vertices in the order they are listed. -/
def flat : HierarchicalOrdering α → List α
  | .element v => [v]
  | .component items => flatAll items
def flatAll : List (HierarchicalOrdering α) → List α
  | [] => []
  | item :: items => flat item ++ flatAll items
end

/-- Components are not empty and start with an element. -/
inductive WellFormed : HierarchicalOrdering α → Prop
  | element (v : α) : WellFormed (.element v)
  | component {v : α} {items : List (HierarchicalOrdering α)} : (∀ item ∈ items, WellFormed item) →
      WellFormed (.component (.element v :: items))

/-- The vertex `v` is the head of a component with `u` in it. -/
inductive Heads : HierarchicalOrdering α → α → α → Prop
  | head {v u : α} {items : List (HierarchicalOrdering α)} : u ∈ flat (.component (.element v :: items)) →
      Heads (.component (.element v :: items)) v u
  | inner {v u : α} {item : HierarchicalOrdering α} {items : List (HierarchicalOrdering α)} : item ∈ items → Heads item v u →
      Heads (.component items) v u

/-- Some component of the list has the head `v` and `u` in it. -/
def HeadsIn (items : List (HierarchicalOrdering α)) (v u : α) : Prop := ∃ item ∈ items, Heads item v u

theorem flatAll_append (first last : List (HierarchicalOrdering α)) :
    flatAll (first ++ last) = flatAll first ++ flatAll last := by
  induction first with
  | nil => simp [flatAll]
  | cons item first ih => simp [flatAll, ih]

/-- What two vertices joined by an edge may be to each other. -/
def Linked (items : List (HierarchicalOrdering α)) (u v : α) : Prop := HeadsIn items v u ∨ [u, v].Sublist (flatAll items)

theorem Linked.left {items : List (HierarchicalOrdering α)} {u v : α} (linked : Linked items u v)
    (more : List (HierarchicalOrdering α)) : Linked (more ++ items) u v := by
  rcases linked with ⟨item, member, heads⟩ | before
  · exact .inl ⟨item, List.mem_append_right _ member, heads⟩
  · rw [Linked, flatAll_append]
    exact .inr (before.trans (List.sublist_append_right _ _))

theorem Linked.right {items : List (HierarchicalOrdering α)} {u v : α} (linked : Linked items u v)
    (more : List (HierarchicalOrdering α)) : Linked (items ++ more) u v := by
  rcases linked with ⟨item, member, heads⟩ | before
  · exact .inl ⟨item, List.mem_append_left _ member, heads⟩
  · rw [Linked, flatAll_append]
    exact .inr (before.trans (List.sublist_append_left _ _))

theorem Linked.across {first last : List (HierarchicalOrdering α)} {u v : α} (here : u ∈ flatAll first)
    (there : v ∈ flatAll last) : Linked (first ++ last) u v := by
  rw [Linked, flatAll_append]
  exact .inr (List.Sublist.append (List.singleton_sublist.mpr here) (List.singleton_sublist.mpr there))

end HierarchicalOrdering

namespace Proofs.Order
open Panopticon.WeakTopoOrder HierarchicalOrdering AdjacencyList Relation

section
variable {N E : Type} {g : AdjacencyList N E}

def White (s : State) (v : Nat) : Prop := s.dfn[v]? = some (some 0)

def Done (s : State) (v : Nat) : Prop := s.dfn[v]? = some none

/-- All vertices have numbers, and the stack holds those with one between zero and infinity. -/
structure Good (g : AdjacencyList N E) (s : State) : Prop where
  keys : ∀ v : Nat, (s.dfn[v]?).isSome ↔ (g.vertexLabel v).isSome
  stacked : ∀ v : Nat, v ∈ s.stack ↔ ∃ n, 0 < n ∧ s.dfn[v]? = some (some n)
  bound : ∀ v n : Nat, s.dfn[v]? = some (some n) → n ≤ s.num

theorem Good.cases {s : State} (good : Good g s) {v : Nat} (labelled : (g.vertexLabel v).isSome) :
    White s v ∨ Done s v ∨ v ∈ s.stack := by
  obtain ⟨d, found⟩ := Option.isSome_iff_exists.mp ((good.keys v).mpr labelled)
  rcases d with _ | _ | n
  · exact .inr (.inl found)
  · exact .inl found
  · exact .inr (.inr ((good.stacked v).mpr ⟨n + 1, Nat.succ_pos n, found⟩))

theorem Good.not_white {s : State} (good : Good g s) {v : Nat} (stacked : v ∈ s.stack) : ¬ White s v := by
  intro white
  obtain ⟨n, positive, found⟩ := (good.stacked v).mp stacked
  rw [white] at found
  cases found
  omega

theorem Good.not_done {s : State} (good : Good g s) {v : Nat} (stacked : v ∈ s.stack) : ¬ Done s v := by
  intro done
  obtain ⟨n, positive, found⟩ := (good.stacked v).mp stacked
  rw [done] at found
  cases found

theorem Done.not_white {s : State} {v : Nat} (done : Done s v) : ¬ White s v := by
  intro white
  rw [White, done] at white
  cases white

/-- From `s` to `s'` some visits have put `new` on the stack and completed `items`. -/
structure Explored (g : AdjacencyList N E) (s s' : State) (new : List Nat) (items : List (HierarchicalOrdering Nat)) : Prop where
  good : Good g s'
  stack : s'.stack = new ++ s.stack
  ret : s'.ret = items ++ s.ret
  num : s.num ≤ s'.num
  white : ∀ v, v ∈ new ∨ v ∈ flatAll items → White s v
  kept : ∀ v, v ∉ new → v ∉ flatAll items → s'.dfn[v]? = s.dfn[v]?
  done : ∀ v ∈ flatAll items, Done s' v
  later : ∀ v ∈ new, ∀ n, s'.dfn[v]? = some (some n) → s.num < n
  nodup : (flatAll items).Nodup
  formed : ∀ item ∈ items, WellFormed item
  closed : ∀ u ∈ flatAll items, ∀ v, g.Adjacent u v → Done s' v
  seen : ∀ u ∈ new, ∀ v, g.Adjacent u v → ¬ White s' v
  linked : ∀ u ∈ flatAll items, ∀ v ∈ flatAll items, g.Adjacent u v → Linked items u v

namespace Explored
variable {s s' s'' : State} {new new' : List Nat} {items items' : List (HierarchicalOrdering Nat)}

theorem refl (good : Good g s) : Explored g s s [] [] where
  good := good
  stack := rfl
  ret := rfl
  num := Nat.le_refl _
  white := by simp [flatAll]
  kept := fun _ _ _ => rfl
  done := by simp [flatAll]
  later := by simp
  nodup := by simp [flatAll]
  formed := by simp
  closed := by simp [flatAll]
  seen := by simp
  linked := by simp [flatAll]

theorem same (explored : Explored g s s' new items) {v : Nat} (visited : ¬ White s v) : s'.dfn[v]? = s.dfn[v]? :=
  explored.kept v (fun member => visited (explored.white v (.inl member)))
    (fun member => visited (explored.white v (.inr member)))

theorem stays (explored : Explored g s s' new items) {v : Nat} (done : Done s v) : Done s' v :=
  (explored.same done.not_white).trans done

theorem visited (explored : Explored g s s' new items) {v : Nat} (member : v ∈ new ∨ v ∈ flatAll items) : ¬ White s' v := by
  rcases member with fresh | complete
  · exact explored.good.not_white (by simp [explored.stack, fresh])
  · exact (explored.done v complete).not_white

theorem nonwhite (explored : Explored g s s' new items) {v : Nat} (visited : ¬ White s v) : ¬ White s' v := by
  rw [White, explored.same visited]
  exact visited

private theorem white_of (explored : Explored g s s' new items) {v : Nat} (white : White s' v) : White s v := by
  by_contra visited
  exact explored.nonwhite visited white

theorem trans (first : Explored g s s' new items) (second : Explored g s' s'' new' items') :
    Explored g s s'' (new' ++ new) (items' ++ items) where
  good := second.good
  stack := by rw [second.stack, first.stack, List.append_assoc]
  ret := by rw [second.ret, first.ret, List.append_assoc]
  num := Nat.le_trans first.num second.num
  white := by
    intro v member
    simp only [flatAll_append, List.mem_append] at member
    rcases member with (late | early) | (late | early)
    · exact first.white_of (second.white v (.inl late))
    · exact first.white v (.inl early)
    · exact first.white_of (second.white v (.inr late))
    · exact first.white v (.inr early)
  kept := by
    intro v outside outside'
    simp only [flatAll_append, List.mem_append, not_or] at outside outside'
    rw [second.kept v outside.1 outside'.1, first.kept v outside.2 outside'.2]
  done := by
    intro v member
    rw [flatAll_append, List.mem_append] at member
    rcases member with late | early
    · exact second.done v late
    · exact second.stays (first.done v early)
  later := by
    intro v member n found
    rcases List.mem_append.mp member with late | early
    · exact Nat.lt_of_le_of_lt first.num (second.later v late n found)
    · refine first.later v early n ?_
      rw [← second.same (first.visited (.inl early))]
      exact found
  nodup := by
    rw [flatAll_append]
    refine List.nodup_append.mpr ⟨second.nodup, first.nodup, fun a late b early same => ?_⟩
    exact first.visited (.inr early) (same ▸ second.white a (.inr late))
  formed := by
    intro item member
    rcases List.mem_append.mp member with late | early
    · exact second.formed item late
    · exact first.formed item early
  closed := by
    intro u member v edge
    rw [flatAll_append, List.mem_append] at member
    rcases member with late | early
    · exact second.closed u late v edge
    · exact second.stays (first.closed u early v edge)
  seen := by
    intro u member v edge
    rcases List.mem_append.mp member with late | early
    · exact second.seen u late v edge
    · exact second.nonwhite (first.seen u early v edge)
  linked := by
    intro u member v member' edge
    rw [flatAll_append, List.mem_append] at member member'
    rcases member with late | early
    · rcases member' with late' | early'
      · exact (second.linked u late v late' edge).right items
      · exact .across late early'
    · rcases member' with late' | early'
      -- what was complete leads to nothing that is completed later
      · exact absurd (second.white v (.inr late')) (first.closed u early v edge).not_white
      · exact (first.linked u early v early' edge).left items'

end Explored

/-- Paths from `vx` through vertices with a property. -/
def Through (g : AdjacencyList N E) (inside : Nat → Prop) : Nat → Nat → Prop :=
  ReflTransGen fun a b => g.Adjacent a b ∧ inside b

theorem Through.mono {inside inside' : Nat → Prop} (implies : ∀ v, inside v → inside' v) {u v : Nat}
    (path : Through g inside u v) : Through g inside' u v := by
  induction path with
  | refl => exact .refl
  | tail _ step ih => exact ih.tail ⟨step.1, implies _ step.2⟩

/-- A visit of `vx` answers the least number on the old stack that an edge from what it has left on the stack
leads to, or the number of `vx` when it has left nothing. -/
structure Visited (g : AdjacencyList N E) (s s' : State) (vx head : Nat) (new : List Nat)
    (items : List (HierarchicalOrdering Nat)) : Prop where
  explored : Explored g s s' new items
  within : ∀ v, v ∈ new ∨ v ∈ flatAll items → Through g (fun v => v ∈ new ∨ v ∈ flatAll items) vx v
  tree : ∀ v ∈ new, Through g (· ∈ new) vx v
  top : vx ∈ new ∨ (new = [] ∧ vx ∈ flatAll items)
  low : ∀ u ∈ new, ∀ v ∈ s.stack, g.Adjacent u v → ∀ n, s.dfn[v]? = some (some n) → head ≤ n
  bound : head ≤ s.num + 1
  settled : head = s.num + 1 → new = []
  cause : head ≤ s.num → ∃ u ∈ new, ∃ v ∈ s.stack, g.Adjacent u v ∧ s.dfn[v]? = some (some head)

theorem Visited.here {s s' : State} {vx head : Nat} {new : List Nat} {items : List (HierarchicalOrdering Nat)}
    (visited : Visited g s s' vx head new items) : vx ∈ new ∨ vx ∈ flatAll items := by
  rcases visited.top with fresh | ⟨-, complete⟩
  · exact .inl fresh
  · exact .inr complete

/-- The loop over the successors of `vx`, which has been put on the stack in `s` with the number `s.num`. -/
structure Scanned (g : AdjacencyList N E) (s : State) (vx : Nat) (done : List Nat) (sc : Scan) (new : List Nat)
    (items : List (HierarchicalOrdering Nat)) : Prop where
  explored : Explored g s sc.state new items
  processed : ∀ v ∈ done, ¬ White sc.state v ∧ (v ∈ s.stack → ∀ n, s.dfn[v]? = some (some n) → sc.head ≤ n)
  within : ∀ v, v ∈ new ∨ v ∈ flatAll items → Through g (fun v => v ∈ new ∨ v ∈ flatAll items) vx v
  tree : ∀ v ∈ new, Through g (· ∈ new) vx v
  low : ∀ u ∈ new, ∀ v ∈ s.stack, g.Adjacent u v → ∀ n, s.dfn[v]? = some (some n) → sc.head ≤ n
  bound : sc.head ≤ s.num
  cause : sc.head < s.num → ∃ u, (u = vx ∨ u ∈ new) ∧ ∃ v ∈ s.stack, g.Adjacent u v ∧ s.dfn[v]? = some (some sc.head)
  calm : sc.loop = false → new = [] ∧ sc.head = s.num ∧ ∀ v ∈ done, Done sc.state v

namespace Scanned
variable {s : State} {vx : Nat} {done : List Nat} {sc : Scan} {new : List Nat} {items : List (HierarchicalOrdering Nat)}

theorem initial (good : Good g s) : Scanned g s vx [] ⟨s.num, false, s⟩ [] [] where
  explored := .refl good
  processed := by simp
  within := by simp [flatAll]
  tree := by simp
  low := by simp
  bound := Nat.le_refl _
  cause := fun less => absurd less (Nat.lt_irrefl _)
  calm := by simp

/-- A number on the stack that is not above that of `vx` was there when `vx` was put on it. -/
theorem old (scanned : Scanned g s vx done sc new items) (good : Good g s) {v n : Nat} (stacked : v ∈ sc.state.stack)
    (found : sc.state.dfn[v]? = some (some n)) (less : n ≤ s.num) : v ∈ s.stack ∧ s.dfn[v]? = some (some n) := by
  rw [scanned.explored.stack] at stacked
  rcases List.mem_append.mp stacked with fresh | old
  · have above := scanned.explored.later v fresh n found
    omega
  · refine ⟨old, ?_⟩
    rw [← scanned.explored.same (good.not_white old)]
    exact found

theorem lower_head (sc : Scan) (min : Dfn) (state : State) :
    (lower sc min state).state = state ∧ (lower sc min state).head ≤ sc.head ∧
      (∀ n, min = some n → (lower sc min state).head ≤ n) ∧
      ((lower sc min state).head = sc.head ∨ min = some (lower sc min state).head) ∧
      ((lower sc min state).loop = false → sc.loop = false ∧ (lower sc min state).head = sc.head ∧
        ∀ n, min = some n → sc.head < n) := by
  unfold lower
  cases min with
  | none => simp
  | some n =>
    by_cases less : n ≤ sc.head
    · simp [less]
    · have above : sc.head < n := by omega
      simpa [less, above] using Nat.le_of_lt above

theorem known (scanned : Scanned g s vx done sc new items) (good : Good g s) {v : Nat} {d : Dfn} (edge : g.Adjacent vx v)
    (found : sc.state.dfn[v]? = some d) (visited : d ≠ some 0) :
    Scanned g s vx (done ++ [v]) (lower sc d sc.state) new items := by
  obtain ⟨same, less, below, origin, quiet⟩ := lower_head sc d sc.state
  have nonwhite : ¬ White sc.state v := fun white => visited (Option.some.inj (found.symm.trans white))
  have active : ∀ n, d = some n → v ∈ sc.state.stack := by
    intro n number
    refine (scanned.explored.good.stacked v).mpr ⟨n, Nat.pos_of_ne_zero fun zero => visited (by rw [number, zero]), ?_⟩
    rw [found, number]
  refine ⟨by rw [same]; exact scanned.explored, ?_, scanned.within, scanned.tree, ?_, Nat.le_trans less scanned.bound, ?_, ?_⟩
  · intro w member
    rw [same]
    rcases List.mem_append.mp member with old | here
    · obtain ⟨first, second⟩ := scanned.processed w old
      exact ⟨first, fun stacked n number => Nat.le_trans less (second stacked n number)⟩
    · rw [List.mem_singleton.mp here]
      refine ⟨nonwhite, fun stacked n number => below n ?_⟩
      rw [← scanned.explored.same (good.not_white stacked), found] at number
      exact Option.some.inj number
  · exact fun u member w stacked edge n number => Nat.le_trans less (scanned.low u member w stacked edge n number)
  · intro strict
    rcases origin with equal | equal
    · obtain ⟨u, from_, w, stacked, edge, number⟩ := scanned.cause (by omega)
      exact ⟨u, from_, w, stacked, edge, by rw [equal]; exact number⟩
    · obtain ⟨stacked, number⟩ := scanned.old good (active _ equal) (found.trans (congrArg some equal)) (Nat.le_of_lt strict)
      exact ⟨vx, .inl rfl, v, stacked, edge, number⟩
  · intro loop
    obtain ⟨loop, equal, above⟩ := quiet loop
    obtain ⟨empty, head, complete⟩ := scanned.calm loop
    refine ⟨empty, by rw [equal, head], fun w member => ?_⟩
    rw [same]
    rcases List.mem_append.mp member with old | here
    · exact complete w old
    · rw [List.mem_singleton.mp here]
      cases d with
      | none => exact found
      | some n =>
        have stacked := active n rfl
        rw [scanned.explored.stack, empty, List.nil_append] at stacked
        have number := good.bound v n (by rw [← scanned.explored.same (good.not_white stacked)]; exact found)
        have strict := above n rfl
        omega

theorem unknown (scanned : Scanned g s vx done sc new items) (good : Good g s) {v head : Nat} {state : State}
    {new' : List Nat} {items' : List (HierarchicalOrdering Nat)} (edge : g.Adjacent vx v) (white : White sc.state v)
    (visited : Visited g sc.state state v head new' items') :
    Scanned g s vx (done ++ [v]) (lower sc (some head) state) (new' ++ new) (items' ++ items) := by
  obtain ⟨same, less, below, origin, quiet⟩ := lower_head sc (some head) state
  have below : (lower sc (some head) state).head ≤ head := below head rfl
  refine ⟨by rw [same]; exact scanned.explored.trans visited.explored, ?_, ?_, ?_, ?_, Nat.le_trans less scanned.bound, ?_, ?_⟩
  · intro w member
    rw [same]
    rcases List.mem_append.mp member with old | here
    · obtain ⟨first, second⟩ := scanned.processed w old
      exact ⟨visited.explored.nonwhite first, fun stacked n number => Nat.le_trans less (second stacked n number)⟩
    · rw [List.mem_singleton.mp here]
      refine ⟨visited.explored.visited visited.here, fun stacked => ?_⟩
      exact absurd (scanned.explored.white_of white) (good.not_white stacked)
  · have inner : ∀ w, w ∈ new' ∨ w ∈ flatAll items' → w ∈ new' ++ new ∨ w ∈ flatAll (items' ++ items) := by
      intro w member
      simp only [flatAll_append, List.mem_append]
      exact member.imp .inl .inl
    have outer : ∀ w, w ∈ new ∨ w ∈ flatAll items → w ∈ new' ++ new ∨ w ∈ flatAll (items' ++ items) := by
      intro w member
      simp only [flatAll_append, List.mem_append]
      exact member.imp .inr .inr
    intro w member
    simp only [flatAll_append, List.mem_append] at member
    have split : (w ∈ new' ∨ w ∈ flatAll items') ∨ (w ∈ new ∨ w ∈ flatAll items) := by tauto
    rcases split with late | early
    · exact .head ⟨edge, inner v visited.here⟩ ((visited.within w late).mono inner)
    · exact (scanned.within w early).mono outer
  · intro w member
    rcases List.mem_append.mp member with late | early
    · have start : v ∈ new' := by
        rcases visited.top with fresh | ⟨empty, -⟩
        · exact fresh
        · rw [empty] at late
          cases late
      exact .head ⟨edge, List.mem_append_left _ start⟩ ((visited.tree w late).mono fun x => List.mem_append_left _)
    · exact (scanned.tree w early).mono fun x => List.mem_append_right _
  · intro u member w stacked edge n number
    rcases List.mem_append.mp member with late | early
    · refine Nat.le_trans below (visited.low u late w ?_ edge n ?_)
      · rw [scanned.explored.stack]
        exact List.mem_append_right _ stacked
      · rw [scanned.explored.same (good.not_white stacked)]
        exact number
    · exact Nat.le_trans less (scanned.low u early w stacked edge n number)
  · intro strict
    rcases origin with equal | equal
    · obtain ⟨u, from_, w, stacked, edge, number⟩ := scanned.cause (by omega)
      exact ⟨u, from_.imp_right (List.mem_append_right _), w, stacked, edge, by rw [equal]; exact number⟩
    · have equal : head = (lower sc (some head) state).head := Option.some.inj equal
      have grown := scanned.explored.num
      obtain ⟨u, member, w, stacked, edge, number⟩ := visited.cause (by omega)
      obtain ⟨stacked, number⟩ := scanned.old good stacked number (by omega)
      exact ⟨u, .inr (List.mem_append_left _ member), w, stacked, edge, by rw [← equal]; exact number⟩
  · intro loop
    obtain ⟨loop, equal, above⟩ := quiet loop
    obtain ⟨empty, top, complete⟩ := scanned.calm loop
    have above := above head rfl
    have none : new' = [] := by
      by_cases settled : head = sc.state.num + 1
      · exact visited.settled settled
      · have bound := visited.bound
        obtain ⟨u, -, w, stacked, -, number⟩ := visited.cause (by omega)
        rw [scanned.explored.stack, empty, List.nil_append] at stacked
        rw [scanned.explored.same (good.not_white stacked)] at number
        have small := good.bound w head number
        omega
    refine ⟨by simp [none, empty], by rw [equal, top], fun w member => ?_⟩
    rw [same]
    rcases List.mem_append.mp member with old | here
    · exact visited.explored.stays (complete w old)
    · rw [List.mem_singleton.mp here]
      refine visited.explored.done v ?_
      rcases visited.top with fresh | ⟨-, complete⟩
      · rw [none] at fresh
        cases fresh
      · exact complete

end Scanned

section
variable {ε : Type} {s : State} {vx : Nat} {new : List Nat} {items : List (HierarchicalOrdering Nat)}

/-- The numbers after everything above `vx` has become unvisited. -/
def cleared (dfn : Std.ExtTreeMap Nat Dfn) (new : List Nat) : Std.ExtTreeMap Nat Dfn :=
  new.foldl (fun dfn v => dfn.insert v (some 0)) dfn

private theorem getElem?_cleared (dfn : Std.ExtTreeMap Nat Dfn) (new : List Nat) (v : Nat) :
    (cleared dfn new)[v]? = if v ∈ new then some (some 0) else dfn[v]? := by
  unfold cleared
  induction new generalizing dfn with
  | nil => simp
  | cons u new ih =>
    rw [List.foldl_cons, ih]
    simp only [Std.ExtTreeMap.getElem?_insert, Nat.compare_eq_eq, List.mem_cons]
    by_cases later : v ∈ new
    · simp [later]
    · simp [later, eq_comm]

private theorem unstack_spec (rest : List Nat) (dfn : Std.ExtTreeMap Nat Dfn) (fresh : vx ∉ new) :
    (unstack vx (new ++ vx :: rest) dfn : Outcome ε _) = .returns (rest, cleared dfn new) := by
  induction new generalizing dfn with
  | nil => simp [unstack, cleared]
  | cons u new ih =>
    obtain ⟨other, fresh⟩ : vx ≠ u ∧ vx ∉ new := by simpa using fresh
    simp only [List.cons_append, unstack, if_pos (Ne.symm other), ih _ fresh]
    rfl

theorem outgoing_spec (valid : g.Consistent) (labelled : (g.vertexLabel vx).isSome) :
    ∃ out, (g.outgoing vx : Outcome ε _) = .returns out ∧ (∀ e ∈ out, ∃ v, g.edges[e]? = some (vx, v)) ∧
      ∀ v, g.Adjacent vx v → v ∈ out.filterMap g.target := by
  obtain ⟨out, list⟩ := Option.isSome_iff_exists.mp ((valid.outKeys vx).mpr labelled)
  have members := (valid.outList vx out list).2
  refine ⟨out, by simp [outgoing, list], fun e member => (members e).mp member, ?_⟩
  intro v holds
  obtain ⟨e, stored⟩ := holds
  exact List.mem_filterMap.mpr ⟨e, (members e).mpr ⟨v, stored⟩, by simp [target, stored]⟩

def Few (k : Nat) (s : State) : Prop := ∃ list : List Nat, list.length ≤ k ∧ ∀ v, White s v → v ∈ list

/-- What a function in the place of `visit` must do with at most `k` unvisited vertices left. -/
def Visits (g : AdjacencyList N E) (k : Nat) (visit : Nat → State → Outcome ε (Nat × State)) : Prop :=
  ∀ s vx, Good g s → White s vx → Few k s → ∃ head s' new items, visit vx s = .returns (head, s') ∧
    Visited g s s' vx head new items

theorem Explored.few {k : Nat} {s' : State} (explored : Explored g s s' new items) (few : Few k s) : Few k s' := by
  obtain ⟨list, short, all⟩ := few
  exact ⟨list, short, fun v white => all v (explored.white_of white)⟩

/-- The loop of `visit` over the successors. -/
theorem scan_spec {k : Nat} {visit : Nat → State → Outcome ε (Nat × State)} (visits : Visits g k visit) (good : Good g s)
    (few : Few k s) (valid : g.Consistent) {out : List Nat} (list : ∀ e ∈ out, ∃ v, g.edges[e]? = some (vx, v)) :
    ∃ sc new items, (Outcome.fold (scan g visit) ⟨s.num, false, s⟩ out : Outcome ε _) = .returns sc ∧
      Scanned g s vx (out.filterMap g.target) sc new items := by
  obtain ⟨sc, folded, done, split, new, items, scanned⟩ := Outcome.fold_returns (f := scan g visit)
    (fun rest sc => ∃ done, done ++ rest = out ∧ ∃ new items, Scanned g s vx (done.filterMap g.target) sc new items)
    (fun e rest sc holds => by
      obtain ⟨done, split, new, items, scanned⟩ := holds
      obtain ⟨v, stored⟩ := list e (by simp [← split])
      have target : g.target e = some v := by simp [target, stored]
      have edge : g.Adjacent vx v := ⟨e, stored⟩
      have labelled := (valid.ends e vx v stored).2
      obtain ⟨d, found⟩ := Option.isSome_iff_exists.mp ((scanned.explored.good.keys v).mpr labelled)
      have processed : (done ++ [e]).filterMap g.target = done.filterMap g.target ++ [v] := by simp [target]
      by_cases white : d = some 0
      · subst d
        obtain ⟨head, state, new', items', returned, visited⟩ :=
          visits sc.state v scanned.explored.good found (scanned.explored.few few)
        refine ⟨lower sc (some head) state, ?_, done ++ [e], by simp [← split], new' ++ new, items' ++ items, ?_⟩
        · simp [scan, target, reach, found, Outcome.unwrap, returned]
        · rw [processed]
          exact scanned.unknown good edge found visited
      · refine ⟨lower sc d sc.state, ?_, done ++ [e], by simp [← split], new, items, ?_⟩
        · simp [scan, target, reach, found, Outcome.unwrap, white]
        · rw [processed]
          exact scanned.known good edge found white)
    out ⟨s.num, false, s⟩ ⟨[], rfl, [], [], .initial good⟩
  rw [List.append_nil] at split
  exact ⟨sc, new, items, folded, split ▸ scanned⟩

/-- A component: the unvisited vertices that its head leads to are among `inside`, and nothing in `inside` leads to
the stack, so every visit completes what it finds. -/
theorem component_spec {k : Nat} {visit : Nat → State → Outcome ε (Nat × State)} (visits : Visits g k visit) (good : Good g s)
    (few : Few k s) (valid : g.Consistent) (labelled : (g.vertexLabel vx).isSome) {inside : Nat → Prop}
    (entry : ∀ v, g.Adjacent vx v → White s v → inside v)
    (confined : ∀ u, inside u → ∀ v, g.Adjacent u v → White s v → inside v)
    (apart : ∀ u, inside u → ∀ v ∈ s.stack, ¬ g.Adjacent u v) :
    ∃ items s', (component g visit vx s : Outcome ε _) =
        .returns (.component (.element vx :: items), { s' with ret := s.ret }) ∧
      Explored g { s with ret := [] } s' [] items ∧ (∀ v ∈ flatAll items, inside v) ∧
      ∀ v, g.Adjacent vx v → ¬ White s' v := by
  obtain ⟨out, listed, list, successors⟩ := outgoing_spec (ε := ε) valid labelled
  have good' : Good g { s with ret := [] } := ⟨good.keys, good.stacked, good.bound⟩
  obtain ⟨s', folded, done, split, items, explored, inner, processed⟩ := Outcome.fold_returns (f := descend g visit)
    (fun rest t => ∃ done, done ++ rest = out ∧ ∃ items, Explored g { s with ret := [] } t [] items ∧
      (∀ v ∈ flatAll items, inside v) ∧ ∀ v ∈ done.filterMap g.target, ¬ White t v)
    (fun e rest t holds => by
      obtain ⟨done, split, items, explored, inner, processed⟩ := holds
      obtain ⟨v, stored⟩ := list e (by simp [← split])
      have target : g.target e = some v := by simp [target, stored]
      obtain ⟨d, found⟩ := Option.isSome_iff_exists.mp ((explored.good.keys v).mpr (valid.ends e vx v stored).2)
      have extended : ∀ t' : State, (∀ w ∈ done.filterMap g.target, ¬ White t' w) → ¬ White t' v →
          ∀ w ∈ (done ++ [e]).filterMap g.target, ¬ White t' w := by
        intro t' old here w member
        rw [List.filterMap_append, List.mem_append] at member
        rcases member with early | late
        · exact old w early
        · simp only [List.filterMap_cons, target, List.filterMap_nil, List.mem_singleton] at late
          exact late ▸ here
      by_cases white : d = some 0
      · subst d
        obtain ⟨head, t', new', items', returned, visited⟩ := visits t v explored.good found (explored.few few)
        have reached : ∀ w, w ∈ new' ∨ w ∈ flatAll items' → inside w := by
          intro w member
          have path := visited.within w member
          have whites : ∀ x, x ∈ new' ∨ x ∈ flatAll items' → White s x :=
            fun x member => explored.white_of (visited.explored.white x member)
          clear member
          induction path with
          | refl => exact entry v ⟨e, stored⟩ (explored.white_of found)
          | tail _ step ih => exact confined _ ih _ step.1 (whites _ step.2)
        have none : new' = [] := by
          by_cases settled : head = t.num + 1
          · exact visited.settled settled
          · have bound := visited.bound
            obtain ⟨u, member, w, stacked, edge, -⟩ := visited.cause (by omega)
            rw [explored.stack, List.nil_append] at stacked
            exact absurd edge (apart u (reached u (.inl member)) w stacked)
        subst none
        refine ⟨t', by simp [descend, target, found, Outcome.unwrap, returned], done ++ [e], by simp [← split],
          items' ++ items, explored.trans visited.explored, ?_, ?_⟩
        · intro w member
          rw [flatAll_append, List.mem_append] at member
          rcases member with late | early
          · exact reached w (.inr late)
          · exact inner w early
        · exact extended t' (fun w member => visited.explored.nonwhite (processed w member))
            (visited.explored.visited visited.here)
      · refine ⟨t, by simp [descend, target, found, Outcome.unwrap, white], done ++ [e], by simp [← split], items,
          explored, inner, extended t processed fun here => white ?_⟩
        exact Option.some.inj (found.symm.trans here))
    out { s with ret := [] } ⟨[], rfl, [], .refl good', by simp [flatAll], by simp⟩
  rw [List.append_nil] at split
  subst done
  have items_eq : s'.ret = items := by simpa using explored.ret
  refine ⟨items, s', ?_, explored, inner, fun v edge => processed v (successors v edge)⟩
  simp [WeakTopoOrder.component, listed, folded, items_eq]

end

section
variable {ε : Type} {s : State} {vx : Nat}

/-- The state in which the successors of `vx` are scanned. -/
def pushed (s : State) (vx : Nat) : State :=
  { s with stack := vx :: s.stack, num := s.num + 1, dfn := s.dfn.insert vx (some (s.num + 1)) }

theorem getElem?_pushed (s : State) (vx v : Nat) :
    (pushed s vx).dfn[v]? = if vx = v then some (some (s.num + 1)) else s.dfn[v]? := by
  simp only [pushed, Std.ExtTreeMap.getElem?_insert, Nat.compare_eq_eq]

theorem pushed_self (s : State) (vx : Nat) : (pushed s vx).dfn[vx]? = some (some (s.num + 1)) := by
  rw [getElem?_pushed, if_pos rfl]

theorem pushed_old (good : Good g s) (white : White s vx) {v : Nat} (stacked : v ∈ s.stack) :
    (pushed s vx).dfn[v]? = s.dfn[v]? := by
  rw [getElem?_pushed, if_neg]
  intro same
  exact good.not_white (same ▸ stacked) white

theorem white_of_pushed {v : Nat} (white : White (pushed s vx) v) : White s v ∧ v ≠ vx := by
  rw [White, getElem?_pushed] at white
  split at white
  · simp at white
  · next other => exact ⟨white, Ne.symm other⟩

private theorem pushed_good (good : Good g s) (white : White s vx) : Good g (pushed s vx) := by
  refine ⟨?_, ?_, ?_⟩
  · intro v
    rw [getElem?_pushed]
    split
    · next same =>
      subst v
      rw [← good.keys, white]
      simp
    · exact good.keys v
  · intro v
    rw [getElem?_pushed]
    split
    · next same => simp [pushed, same]
    · next other =>
      rw [← good.stacked v]
      simp [pushed, Ne.symm other]
  · intro v n found
    rw [getElem?_pushed] at found
    split at found
    · cases found
      exact Nat.le_refl _
    · exact Nat.le_succ_of_le (good.bound v n found)

private theorem pushed_few {k : Nat} (few : Few (k + 1) s) (white : White s vx) : Few k (pushed s vx) := by
  obtain ⟨list, short, all⟩ := few
  refine ⟨list.erase vx, ?_, fun v white => ?_⟩
  · rw [List.length_erase_of_mem (all vx white)]
    omega
  · obtain ⟨white, other⟩ := white_of_pushed white
    exact (List.mem_erase_of_ne other).mpr (all v white)

variable {sc : Scan} {new : List Nat} {items : List (HierarchicalOrdering Nat)} {done : List Nat}

theorem Scanned.number (scanned : Scanned g (pushed s vx) vx done sc new items) :
    sc.state.dfn[vx]? = some (some (s.num + 1)) := by
  rw [scanned.explored.same, pushed_self]
  rw [White, pushed_self]
  simp

theorem Scanned.notMem (scanned : Scanned g (pushed s vx) vx done sc new items) :
    vx ∉ new ∧ vx ∉ flatAll items := by
  refine ⟨fun member => ?_, fun member => ?_⟩
  · exact (white_of_pushed (scanned.explored.white vx (.inl member))).2 rfl
  · exact (white_of_pushed (scanned.explored.white vx (.inr member))).2 rfl

/-- Nothing that the visit has left on the stack leads below `vx` when the head is the number of `vx`. -/
theorem Scanned.apart (scanned : Scanned g (pushed s vx) vx done sc new items) (good : Good g s) (white : White s vx)
    (all : ∀ v, g.Adjacent vx v → v ∈ done) (head : sc.head = s.num + 1) {u v : Nat} (member : u = vx ∨ u ∈ new)
    (stacked : v ∈ s.stack) : ¬ g.Adjacent u v := by
  intro edge
  obtain ⟨n, -, found⟩ := (good.stacked v).mp stacked
  have small := good.bound v n found
  have inside : v ∈ (pushed s vx).stack := List.mem_cons_of_mem _ stacked
  rw [← pushed_old good white stacked] at found
  rcases member with rfl | member
  · have least := (scanned.processed v (all v edge)).2 inside n found
    omega
  · have least := scanned.low u member v inside edge n found
    omega

/-- A visit that leaves `vx` on the stack. -/
theorem Scanned.pending (scanned : Scanned g (pushed s vx) vx done sc new items) (good : Good g s) (white : White s vx)
    (all : ∀ v, g.Adjacent vx v → v ∈ done) (less : sc.head < s.num + 1) :
    Visited g s sc.state vx sc.head (new ++ [vx]) items := by
  have explored := scanned.explored
  have inside : ∀ {v}, v ∈ s.stack → v ∈ (pushed s vx).stack := List.mem_cons_of_mem _
  have members : ∀ {v}, v ∈ new ++ [vx] ↔ v ∈ new ∨ v = vx := by simp
  refine ⟨⟨explored.good, ?_, explored.ret, Nat.le_of_succ_le explored.num, ?_, ?_, explored.done, ?_, explored.nodup,
    explored.formed, explored.closed, ?_, explored.linked⟩, ?_, ?_, .inl (by simp), ?_, by omega, by omega, ?_⟩
  · rw [explored.stack]
    simp [pushed]
  · intro v member
    rcases member with fresh | complete
    · rcases members.mp fresh with fresh | rfl
      · exact (white_of_pushed (explored.white v (.inl fresh))).1
      · exact white
    · exact (white_of_pushed (explored.white v (.inr complete))).1
  · intro v outside outside'
    simp only [members, not_or] at outside
    rw [explored.kept v outside.1 outside', getElem?_pushed, if_neg (Ne.symm outside.2)]
  · intro v member n found
    rcases members.mp member with fresh | rfl
    · exact Nat.lt_of_succ_lt (explored.later v fresh n found)
    · rw [scanned.number] at found
      cases found
      exact Nat.lt_succ_self _
  · intro u member v edge
    rcases members.mp member with fresh | rfl
    · exact explored.seen u fresh v edge
    · exact (scanned.processed v (all v edge)).1
  · intro v member
    have wider : ∀ w, w ∈ new ∨ w ∈ flatAll items → w ∈ new ++ [vx] ∨ w ∈ flatAll items :=
      fun w => .imp_left (List.mem_append_left _)
    rcases member with fresh | complete
    · rcases members.mp fresh with fresh | rfl
      · exact (scanned.within v (.inl fresh)).mono wider
      · exact .refl
    · exact (scanned.within v (.inr complete)).mono wider
  · intro v member
    rcases members.mp member with fresh | rfl
    · exact (scanned.tree v fresh).mono fun w => List.mem_append_left _
    · exact .refl
  · intro u member v stacked edge n found
    rw [← pushed_old good white stacked] at found
    rcases members.mp member with fresh | rfl
    · exact scanned.low u fresh v (inside stacked) edge n found
    · exact (scanned.processed v (all v edge)).2 (inside stacked) n found
  · intro _
    obtain ⟨u, from_, v, stacked, edge, found⟩ := scanned.cause less
    rcases List.mem_cons.mp stacked with rfl | stacked
    · rw [pushed_self] at found
      simp only [Option.some.injEq] at found
      omega
    · rw [pushed_old good white stacked] at found
      exact ⟨u, members.mpr from_.symm, v, stacked, edge, found⟩

/-- A visit that takes `vx` and everything above it off the stack and puts them into one item. -/
theorem Scanned.complete (scanned : Scanned g (pushed s vx) vx done sc new items) (white : White s vx)
    {s' : State} {item : HierarchicalOrdering Nat} {rest : List Nat} (good' : Good g s') (stack : s'.stack = s.stack)
    (ret : s'.ret = item :: sc.state.ret) (num : sc.state.num ≤ s'.num) (formed : WellFormed item)
    (contents : flat item = vx :: rest) (nodup : rest.Nodup) (members : ∀ v, v ∈ rest ↔ v ∈ new)
    (finished : ∀ v ∈ flat item, Done s' v) (kept : ∀ v ∉ flat item, s'.dfn[v]? = sc.state.dfn[v]?)
    (closed : ∀ u ∈ flat item, ∀ v, g.Adjacent u v → Done s' v)
    (linked : ∀ u ∈ flat item, ∀ v ∈ flat item, g.Adjacent u v → Linked [item] u v) :
    Visited g s s' vx (s.num + 1) [] (item :: items) := by
  have explored := scanned.explored
  have inner : ∀ v, v ∈ flat item ↔ v = vx ∨ v ∈ new := by
    intro v
    rw [contents, List.mem_cons, members]
  have whites : ∀ v, v ∈ new ∨ v ∈ flatAll items → White s v ∧ v ≠ vx := fun v member => white_of_pushed (explored.white v member)
  have disjoint : ∀ v ∈ flat item, v ∉ flatAll items := by
    intro v member complete
    rcases (inner v).mp member with rfl | fresh
    · exact (whites _ (.inr complete)).2 rfl
    · exact explored.good.not_done (by simp [explored.stack, fresh]) (explored.done v complete)
  have lasting : ∀ v, Done sc.state v → v ∉ flat item := by
    intro v complete member
    rcases (inner v).mp member with rfl | fresh
    · rw [Done, scanned.number] at complete
      cases complete
    · exact explored.good.not_done (by simp [explored.stack, fresh]) complete
  have stays : ∀ v, Done sc.state v → Done s' v := fun v complete => (kept v (lasting v complete)).trans complete
  have inside : ∀ v, v ∈ flatAll (item :: items) ↔ v ∈ flat item ∨ v ∈ flatAll items := by simp [flatAll]
  refine ⟨⟨good', stack, ?_, Nat.le_trans (Nat.le_of_succ_le explored.num) num, ?_, ?_, ?_, by simp, ?_, ?_, ?_, by simp, ?_⟩,
    ?_, by simp, .inr ⟨rfl, ?_⟩, by simp, Nat.le_refl _, fun _ => rfl, by omega⟩
  · rw [ret, explored.ret]
    rfl
  · intro v member
    rcases (inside v).mp (member.resolve_left (by simp)) with here | early
    · rcases (inner v).mp here with rfl | fresh
      · exact white
      · exact (whites v (.inl fresh)).1
    · exact (whites v (.inr early)).1
  · intro v _ outside
    simp only [inside, not_or] at outside
    have apart : v ≠ vx ∧ v ∉ new := not_or.mp fun member => outside.1 ((inner v).mpr member)
    rw [kept v outside.1, explored.kept v apart.2 outside.2, getElem?_pushed, if_neg (Ne.symm apart.1)]
  · intro v member
    rcases (inside v).mp member with here | early
    · exact finished v here
    · exact stays v (explored.done v early)
  · simp only [flatAll]
    refine List.nodup_append.mpr ⟨?_, explored.nodup, fun a here b early same => disjoint a here (same ▸ early)⟩
    rw [contents]
    exact List.nodup_cons.mpr ⟨fun member => scanned.notMem.1 ((members vx).mp member), nodup⟩
  · exact List.forall_mem_cons.mpr ⟨formed, explored.formed⟩
  · intro u member v edge
    rcases (inside u).mp member with here | early
    · exact closed u here v edge
    · exact stays v (explored.closed u early v edge)
  · intro u member v member' edge
    rcases (inside u).mp member with here | early
    · rcases (inside v).mp member' with here' | early'
      · exact (linked u here v here' edge).right items
      · have first : u ∈ flatAll [item] := by simpa [flatAll] using here
        exact Linked.across first early'
    · rcases (inside v).mp member' with here' | early'
      · exact absurd here' (lasting v (explored.closed u early v edge))
      · exact (explored.linked u early v early' edge).left [item]
  · intro v member
    have wider : ∀ w, w ∈ new ∨ w ∈ flatAll items → w ∈ [] ∨ w ∈ flatAll (item :: items) := by
      intro w member
      exact .inr ((inside w).mpr (member.imp_left fun fresh => (inner w).mpr (.inr fresh)))
    rcases (inside v).mp (member.resolve_left (by simp)) with here | early
    · rcases (inner v).mp here with rfl | fresh
      · exact .refl
      · exact (scanned.within v (.inl fresh)).mono wider
    · exact (scanned.within v (.inr early)).mono wider
  · exact (inside vx).mpr (.inl ((inner vx).mpr (.inl rfl)))

theorem Scanned.single (scanned : Scanned g (pushed s vx) vx done sc new items) (good : Good g s) (white : White s vx)
    (all : ∀ v, g.Adjacent vx v → v ∈ done) (loop : sc.loop = false) :
    sc.state.stack = vx :: s.stack ∧ Visited g s { sc.state with
      ret := .element vx :: sc.state.ret, stack := s.stack, dfn := sc.state.dfn.insert vx none } vx (s.num + 1) []
      (.element vx :: items) := by
  obtain ⟨rfl, -, successors⟩ := scanned.calm loop
  have explored := scanned.explored
  have stack : sc.state.stack = vx :: s.stack := explored.stack
  have lookup : ∀ v, (sc.state.dfn.insert vx none)[v]? = if vx = v then some none else sc.state.dfn[v]? := by
    intro v
    simp only [Std.ExtTreeMap.getElem?_insert, Nat.compare_eq_eq]
  have outside : vx ∉ s.stack := fun stacked => good.not_white stacked white
  have leads : ∀ v, g.Adjacent vx v → Done sc.state v ∧ v ≠ vx := by
    intro v edge
    have complete := successors v (all v edge)
    refine ⟨complete, fun same => ?_⟩
    rw [Done, same, scanned.number] at complete
    cases complete
  refine ⟨stack, scanned.complete white ⟨?_, ?_, ?_⟩ rfl rfl (Nat.le_refl _) (.element vx) rfl (List.nodup_nil) (by simp)
    ?_ ?_ ?_ ?_⟩
  · intro v
    simp only [lookup]
    split
    · next same =>
      subst v
      simp [← explored.good.keys, scanned.number]
    · exact explored.good.keys v
  · intro v
    simp only [lookup]
    split
    · next same => simp [← same, outside]
    · next other =>
      rw [← explored.good.stacked v, stack]
      simp [Ne.symm other]
  · intro v n found
    simp only [lookup] at found
    split at found
    · cases found
    · exact explored.good.bound v n found
  · intro v member
    rw [List.mem_singleton.mp member, Done]
    simp
  · intro v other
    simp only [flat, List.mem_singleton] at other
    simp only [lookup, if_neg (Ne.symm other)]
  · intro u member v edge
    rw [List.mem_singleton.mp member] at edge
    obtain ⟨complete, other⟩ := leads v edge
    rw [Done]
    simp only [lookup, if_neg (Ne.symm other)]
    exact complete
  · intro u member v member' edge
    rw [List.mem_singleton.mp member, List.mem_singleton.mp member'] at edge
    exact absurd rfl (leads vx edge).2

/-- The state in which the component of `vx` is built. -/
def unstacked (s : State) (sc : Scan) (vx : Nat) (new : List Nat) : State :=
  { sc.state with stack := s.stack, dfn := cleared (sc.state.dfn.insert vx none) new }

theorem getElem?_unstacked (s : State) (sc : Scan) (vx : Nat) (new : List Nat) (v : Nat) :
    (unstacked s sc vx new).dfn[v]? =
      if v ∈ new then some (some 0) else if vx = v then some none else sc.state.dfn[v]? := by
  simp only [unstacked, getElem?_cleared, Std.ExtTreeMap.getElem?_insert, Nat.compare_eq_eq]

theorem Scanned.unstacked_good (scanned : Scanned g (pushed s vx) vx done sc new items) (good : Good g s) (white : White s vx) :
    Good g (unstacked s sc vx new) := by
  have explored := scanned.explored
  have fresh : ∀ v ∈ new, v ∉ s.stack := fun v member stacked =>
    good.not_white stacked (white_of_pushed (explored.white v (.inl member))).1
  refine ⟨?_, ?_, ?_⟩
  · intro v
    rw [getElem?_unstacked]
    split
    · next member =>
      obtain ⟨n, -, found⟩ := (explored.good.stacked v).mp (by simp [explored.stack, member])
      simp [← explored.good.keys, found]
    · split
      · next same =>
        subst v
        simp [← explored.good.keys, scanned.number]
      · exact explored.good.keys v
  · intro v
    rw [getElem?_unstacked]
    split
    · next member => simp [unstacked, fresh v member]
    · next outside =>
      split
      · next same =>
        subst v
        have absent : vx ∉ s.stack := fun stacked => good.not_white stacked white
        simp [unstacked, absent]
      · next other =>
        rw [← explored.good.stacked v, explored.stack]
        simp [unstacked, pushed, outside, Ne.symm other]
  · intro v n found
    rw [getElem?_unstacked] at found
    split at found
    · cases found
      exact Nat.zero_le _
    · split at found
      · cases found
      · exact explored.good.bound v n found

theorem Scanned.grouped {k : Nat} {visit : Nat → State → Outcome ε (Nat × State)} (visits : Visits g k visit)
    (scanned : Scanned g (pushed s vx) vx done sc new items) (good : Good g s) (white : White s vx) (few : Few k (pushed s vx))
    (valid : g.Consistent) (labelled : (g.vertexLabel vx).isSome) (all : ∀ v, g.Adjacent vx v → v ∈ done)
    (head : sc.head = s.num + 1) :
    ∃ item s', (WeakTopoOrder.component g visit vx (unstacked s sc vx new) : Outcome ε _) = .returns (item, s') ∧
      s'.ret = sc.state.ret ∧ Visited g s { s' with ret := item :: s'.ret } vx (s.num + 1) [] (item :: items) := by
  have explored := scanned.explored
  have good' := scanned.unstacked_good good white
  have whites : ∀ v, White (unstacked s sc vx new) v → v ∈ new ∨ White sc.state v := by
    intro v white
    rw [White, getElem?_unstacked] at white
    split at white
    · next member => exact .inl member
    · split at white
      · cases white
      · exact .inr white
  have few' : Few k (unstacked s sc vx new) := by
    obtain ⟨list, short, every⟩ := few
    refine ⟨list, short, fun v white => every v ?_⟩
    rcases whites v white with member | white
    · exact explored.white v (.inl member)
    · exact explored.white_of white
  obtain ⟨inner, t, returned, explored', members, successors⟩ := component_spec visits good' few' valid labelled
    (fun v edge white => (whites v white).resolve_right (scanned.processed v (all v edge)).1)
    (fun u member v edge white => (whites v white).resolve_right (explored.seen u member v edge))
    (fun u member v stacked => scanned.apart good white all head (.inr member) stacked)
  -- every vertex above `vx` has become part of the component
  have changed : ∀ v ∈ new, ¬ White t v → v ∈ flatAll inner := by
    intro v member visited
    by_contra outside
    apply visited
    rw [White, explored'.kept v (by simp) outside]
    simp [getElem?_unstacked, member]
  have covered : ∀ v ∈ new, v ∈ flatAll inner := by
    intro v member
    have path : v = vx ∨ v ∈ flatAll inner := by
      have path := scanned.tree v member
      clear member
      induction path with
      | refl => exact .inl rfl
      | tail _ step ih =>
        refine .inr (changed _ step.2 ?_)
        rcases ih with rfl | complete
        · exact successors _ step.1
        · exact (explored'.closed _ complete _ step.1).not_white
    exact path.resolve_left fun same => scanned.notMem.1 (same ▸ member)
  have finishedHead : Done t vx := by
    rw [Done, explored'.same]
    · simp [getElem?_unstacked, scanned.notMem.1]
    · simp [White, getElem?_unstacked, scanned.notMem.1]
  have contents : ∀ v, v ∈ flat (.component (.element vx :: inner)) ↔ v = vx ∨ v ∈ flatAll inner := by
    simp [flat, flatAll]
  have stack : t.stack = s.stack := explored'.stack
  refine ⟨_, _, returned, rfl, scanned.complete white
    ⟨explored'.good.keys, explored'.good.stacked, explored'.good.bound⟩ stack rfl explored'.num (.component explored'.formed)
    (show flat (.component (.element vx :: inner)) = vx :: flatAll inner by simp [flat, flatAll]) explored'.nodup (fun v => ⟨members v, covered v⟩) ?_ ?_ ?_ ?_⟩
  · intro v member
    rcases (contents v).mp member with rfl | member
    · exact finishedHead
    · exact explored'.done v member
  · intro v outside
    simp only [contents, not_or] at outside
    have absent : v ∉ new := fun member => outside.2 (covered v member)
    have same := explored'.kept v (by simp) outside.2
    rw [same]
    simp only [getElem?_unstacked, if_neg absent, if_neg (Ne.symm outside.1)]
  · intro u member v edge
    rcases (contents u).mp member with rfl | member
    · have known : (g.vertexLabel v).isSome := by
        obtain ⟨e, stored⟩ := edge
        exact (valid.ends e _ _ stored).2
      rcases explored'.good.cases known with white' | complete | stacked
      · exact absurd white' (successors v edge)
      · exact complete
      · exact absurd edge (scanned.apart good white all head (.inl rfl) (stack ▸ stacked))
    · exact explored'.closed u member v edge
  · intro u member v member' edge
    rcases (contents v).mp member' with rfl | there
    · exact .inl ⟨_, List.mem_singleton_self _, .head member⟩
    · rcases (contents u).mp member with rfl | here
      · refine .inr ?_
        simp only [flatAll, flat, List.append_nil, List.singleton_append]
        exact (List.singleton_sublist.mpr there).cons_cons _
      · rcases explored'.linked u here v there edge with ⟨item, listed, heads⟩ | before
        · exact .inl ⟨_, List.mem_singleton_self _, .inner (List.mem_cons_of_mem _ listed) heads⟩
        · refine .inr ?_
          simp only [flatAll, flat, List.append_nil, List.singleton_append]
          exact before.cons _

private theorem visit_spec (valid : g.Consistent) {k fuel : Nat} (enough : k ≤ fuel) : Visits g k (visit (ε := ε) g fuel) := by
  induction k generalizing fuel with
  | zero =>
    intro s vx _ white holds
    obtain ⟨list, short, all⟩ := holds
    have member := all vx white
    rw [List.eq_nil_of_length_eq_zero (Nat.le_zero.mp short)] at member
    cases member
  | succ k ih =>
    obtain ⟨fuel, rfl⟩ := Nat.exists_eq_succ_of_ne_zero (show fuel ≠ 0 by omega)
    have visits : Visits g k (visit (ε := ε) g fuel) := ih (by omega)
    intro s vx good white few
    have labelled : (g.vertexLabel vx).isSome := (good.keys vx).mp (by rw [white]; rfl)
    have few := pushed_few few white
    obtain ⟨out, listed, list, successors⟩ := outgoing_spec (ε := ε) valid labelled
    obtain ⟨sc, new, items, folded, scanned⟩ := scan_spec visits (pushed_good good white) few valid list
    have begun : (visit g (fuel + 1) vx s : Outcome ε _) = finish g (visit g fuel) vx sc := by
      simp only [visit, listed, Outcome.returns_bind]
      rw [show (⟨s.num + 1, false, { s with stack := vx :: s.stack, num := s.num + 1, dfn := s.dfn.insert vx (some (s.num + 1)) }⟩
        : Scan) = ⟨(pushed s vx).num, false, pushed s vx⟩ from rfl, folded, Outcome.returns_bind]
    rw [Nat.succ_eq_add_one, begun]
    have bound : sc.head ≤ s.num + 1 := scanned.bound
    by_cases head : sc.head = s.num + 1
    · cases loop : sc.loop with
      | false =>
        obtain ⟨stack, visited⟩ := scanned.single good white successors loop
        exact ⟨_, _, _, _, by simp [finish, scanned.number, Outcome.unwrap, head, loop, stack], visited⟩
      | true =>
        obtain ⟨item, s', returned, ret, visited⟩ := scanned.grouped visits good white few valid labelled successors head
        refine ⟨_, _, _, _, ?_, visited⟩
        have cut := unstack_spec (ε := ε) s.stack (sc.state.dfn.insert vx none) scanned.notMem.1
        have stack : sc.state.stack = new ++ vx :: s.stack := scanned.explored.stack
        simp only [finish, scanned.number, Outcome.unwrap, Outcome.returns_bind, head, if_pos, loop, stack, cut]
        rw [show ({ sc.state with stack := s.stack, dfn := cleared (sc.state.dfn.insert vx none) new } : State) =
          unstacked s sc vx new from rfl, returned]
        rfl
    · refine ⟨_, _, _, _, ?_, scanned.pending good white successors (by omega)⟩
      simp [finish, scanned.number, Outcome.unwrap, head]

end

/-- Bourdoncle's conditions: every vertex reachable from the root is listed once, components start with their head, and an
edge leads forwards in the list or to the head of a component that it starts in. -/
structure IsWeakTopoOrder (g : AdjacencyList N E) (root : Nat) (items : List (HierarchicalOrdering Nat)) : Prop where
  once : (flatAll items).Nodup
  members : ∀ v, v ∈ flatAll items ↔ Reachable g.Adjacent root v
  formed : ∀ item ∈ items, WellFormed item
  edges : ∀ u v, Reachable g.Adjacent root u → Reachable g.Adjacent root v → g.Adjacent u v →
    ([u, v].Sublist (flatAll items) ∧ ¬ HeadsIn items v u) ∨ HeadsIn items v u

theorem getElem?_initial (g : AdjacencyList N E) (v : Nat) :
    (WeakTopoOrder.initial g).dfn[v]? = (g.vertexLabel v).map fun _ => some 0 := by
  simp [WeakTopoOrder.initial, vertexLabel]

private theorem initial_good (g : AdjacencyList N E) : Good g (WeakTopoOrder.initial g) := by
  refine ⟨?_, ?_, ?_⟩
  · intro v
    simp [getElem?_initial]
  · intro v
    rw [getElem?_initial]
    cases g.vertexLabel v with
    | none => simp [WeakTopoOrder.initial]
    | some lb =>
      simp only [WeakTopoOrder.initial, List.not_mem_nil, Option.map_some, Option.some.injEq, false_iff, not_exists]
      omega
  · intro v n found
    rw [getElem?_initial] at found
    cases label : g.vertexLabel v with
    | none => simp [label] at found
    | some lb =>
      simp only [label, Option.map_some, Option.some.injEq] at found
      omega

private theorem initial_few (g : AdjacencyList N E) : Few g.numVertices (WeakTopoOrder.initial g) := by
  refine ⟨g.vertexLabels.keys, by rw [Std.ExtTreeMap.length_keys, numVertices], fun v white => ?_⟩
  rw [White, getElem?_initial] at white
  rw [Std.ExtTreeMap.mem_keys]
  cases label : g.vertexLabel v with
  | none => simp [label] at white
  | some lb => simpa [vertexLabel] using Option.isSome_of_eq_some label

theorem Through.reachable {inside : Nat → Prop} {u v : Nat} (path : Through g inside u v) : Reachable g.Adjacent u v := by
  induction path with
  | refl => exact ⟨_, .root⟩
  | tail _ step ih => exact ih.step step.1

theorem weakTopoOrder_spec {ε : Type} (valid : g.Consistent) {root fuel : Nat} (labelled : (g.vertexLabel root).isSome)
    (enough : g.numVertices ≤ fuel) :
    ∃ items, (weakTopoOrder g fuel root : Outcome ε _) = .returns (.component items) ∧ IsWeakTopoOrder g root items := by
  have white : White (WeakTopoOrder.initial g) root := by
    obtain ⟨lb, label⟩ := Option.isSome_iff_exists.mp labelled
    simp [White, getElem?_initial, label]
  obtain ⟨head, s, new, items, returned, visited⟩ :=
    visit_spec (ε := ε) valid enough _ root (initial_good g) white (initial_few g)
  have explored := visited.explored
  have none : new = [] := by
    by_cases settled : head = (WeakTopoOrder.initial g).num + 1
    · exact visited.settled settled
    · have bound := visited.bound
      obtain ⟨u, -, v, stacked, -⟩ := visited.cause (by omega)
      cases stacked
  subst none
  have complete : ∀ v, v ∈ flatAll items ↔ Reachable g.Adjacent root v := by
    intro v
    constructor
    · intro member
      exact (visited.within v (.inr member)).reachable
    · intro holds
      obtain ⟨walk, trace⟩ := holds
      induction trace with
      | root => exact visited.here.resolve_left (by simp)
      | step _ edge ih =>
        by_contra outside
        have done := explored.closed _ ih _ edge
        rw [Done, explored.kept _ (by simp) outside, getElem?_initial] at done
        simp at done
  refine ⟨items, ?_, explored.nodup, complete, explored.formed, ?_⟩
  · have ret : s.ret = items := by simpa [WeakTopoOrder.initial] using explored.ret
    simp [weakTopoOrder, returned, ret]
  · intro u v first last edge
    by_cases heads : HeadsIn items v u
    · exact .inr heads
    · rcases explored.linked u ((complete u).mpr first) v ((complete v).mpr last) edge with inside | before
      · exact absurd inside heads
      · exact .inl ⟨before, heads⟩

/-- Two loops that share a vertex, one of them entered from outside, and a vertex with an edge to itself. -/
def twoLoops : AdjacencyList Unit Unit :=
  .ofLists [(), (), (), (), ()] [((), 0, 1), ((), 0, 2), ((), 1, 2), ((), 2, 1), ((), 2, 3), ((), 3, 1), ((), 3, 4), ((), 4, 4)]

theorem twoLoops_order : ∃ items, (weakTopoOrder twoLoops 5 0 : Outcome Empty _) = .returns (.component items) ∧
    IsWeakTopoOrder twoLoops 0 items :=
  weakTopoOrder_spec (.ofLists _ _) (by decide) (by decide)

end
end Proofs.Order
end Panopticon
