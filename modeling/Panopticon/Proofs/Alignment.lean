import Panopticon.Library.Chains
import Panopticon.Proofs.Layers

/-! Vertical alignment. The sweep links the last vertex of a block on the previous rank to a vertex
of the current one, and the places it links to only move on, so no two links cross and no vertex
is linked twice. -/

namespace Panopticon.Proofs.Alignment
open Panopticon.Library Panopticon.Sugiyama Panopticon.Proofs.Layers

variable {ε : Type} {g : AdjacencyList Nat Nat} {order : List (List Nat)} {type1 : List (Nat × Nat)}
  {upToDown leftToRight : Bool}

/-- The vertices of a graph. -/
abbrev Vertex (g : AdjacencyList Nat Nat) : Type := {v : Nat // (g.vertexLabel v).isSome}

instance : Finite (Vertex g) := by
  apply (g.vertexLabels.keys.finite_toSet.subset _).to_subtype
  intro v (labelled : (g.vertexLabel v).isSome)
  have key : v ∈ g.vertexLabels.keys := by simpa [AdjacencyList.vertexLabel] using labelled
  exact key

def Table (g : AdjacencyList Nat Nat) (map : Std.ExtTreeMap Nat Nat) (f : Vertex g → Vertex g) : Prop :=
  ∀ n : Nat, map[n]? = if labelled : (g.vertexLabel n).isSome then some (f ⟨n, labelled⟩).1 else none

theorem Table.get {map : Std.ExtTreeMap Nat Nat} {f : Vertex g → Vertex g} (table : Table g map f) (v : Vertex g) :
    map[v.1]? = some (f v).1 := by
  rw [table v.1, dif_pos v.2]

theorem Table.insert {map : Std.ExtTreeMap Nat Nat} {f : Vertex g → Vertex g} (table : Table g map f) (u v : Vertex g) :
    Table g (map.insert u.1 v.1) (Function.update f u v) := by
  intro n
  rw [Std.ExtTreeMap.getElem?_insert, table n]
  by_cases same : u.1 = n
  · subst same
    simp [u.2]
  · have other (labelled : (g.vertexLabel n).isSome) : (⟨n, labelled⟩ : Vertex g) ≠ u := fun equal => same (by rw [← equal])
    simp [same, other]

private theorem foldl_insert (vs : List Nat) (map : Std.ExtTreeMap Nat Nat) (n : Nat) :
    (vs.foldl (fun map v => map.insert v v) map)[n]? = if n ∈ vs then some n else map[n]? := by
  induction vs generalizing map with
  | nil => simp
  | cons v vs ih =>
    rw [List.foldl_cons, ih, Std.ExtTreeMap.getElem?_insert]
    by_cases later : n ∈ vs
    · simp [later]
    · by_cases same : v = n
      · simp [same]
      · simp [later, same, Ne.symm same]

theorem Table.own (vertices : Enumeration Nat) :
    Table g ((g.vertices vertices).foldl (fun map v => map.insert v v) ∅) id := by
  intro n
  rw [foldl_insert]
  by_cases labelled : (g.vertexLabel n).isSome <;> simp [labelled]

/-- An edge between the ranks, seen in the direction of the sweep. -/
def Joins (g : AdjacencyList Nat Nat) (upToDown : Bool) (w v : Nat) : Prop :=
  if upToDown then g.Adjacent w v else g.Adjacent v w

theorem anyEnd_returns {endOf : Nat → Option Nat} {v : Nat} {es : List Nat} (stored : ∀ e ∈ es, (endOf e).isSome) :
    ∃ answer, (anyEnd endOf v es : Outcome ε Bool) = .returns answer ∧ (answer = true → ∃ e ∈ es, endOf e = some v) := by
  induction es with
  | nil => exact ⟨false, rfl, by simp⟩
  | cons e es ih =>
    obtain ⟨w, found⟩ := Option.isSome_iff_exists.mp (stored e List.mem_cons_self)
    by_cases same : w = v
    · exact ⟨true, by simp [anyEnd, found, same, Outcome.unwrap], fun _ => ⟨e, List.mem_cons_self, same ▸ found⟩⟩
    · obtain ⟨answer, returned, sound⟩ := ih fun e member => stored e (List.mem_cons_of_mem _ member)
      refine ⟨answer, by simp [anyEnd, found, same, returned, Outcome.unwrap], fun true => ?_⟩
      obtain ⟨e, member, ends⟩ := sound true
      exact ⟨e, List.mem_cons_of_mem _ member, ends⟩

private theorem joined_returns (valid : g.Consistent) (upToDown : Bool) (v : Nat) {w : Nat} (labelled : (g.vertexLabel w).isSome) :
    ∃ answer, (joined g upToDown v w : Outcome ε Bool) = .returns answer ∧ (answer = true → Joins g upToDown w v) := by
  cases upToDown with
  | true =>
    obtain ⟨out, list⟩ := Option.isSome_iff_exists.mp ((valid.outKeys w).mpr labelled)
    have edges := (valid.outList w out list).2
    have stored : ∀ e ∈ out, (g.target e).isSome := by
      intro e member
      obtain ⟨x, edge⟩ := (edges e).mp member
      simp [AdjacencyList.target, edge]
    obtain ⟨answer, returned, sound⟩ := anyEnd_returns (ε := ε) (v := v) stored
    refine ⟨answer, by simp [joined, AdjacencyList.outgoing, list, returned, Outcome.unwrap], fun true => ?_⟩
    obtain ⟨e, member, ends⟩ := sound true
    obtain ⟨x, edge⟩ := (edges e).mp member
    simp only [AdjacencyList.target, edge, Option.map_some, Option.some.injEq] at ends
    exact ⟨e, ends ▸ edge⟩
  | false =>
    obtain ⟨into, list⟩ := Option.isSome_iff_exists.mp ((valid.inKeys w).mpr labelled)
    have edges := (valid.inList w into list).2
    have stored : ∀ e ∈ into, (g.source e).isSome := by
      intro e member
      obtain ⟨x, edge⟩ := (edges e).mp member
      simp [AdjacencyList.source, edge]
    obtain ⟨answer, returned, sound⟩ := anyEnd_returns (ε := ε) (v := v) stored
    refine ⟨answer, by simp [joined, AdjacencyList.incoming, list, returned, Outcome.unwrap], fun true => ?_⟩
    obtain ⟨e, member, ends⟩ := sound true
    obtain ⟨x, edge⟩ := (edges e).mp member
    simp only [AdjacencyList.source, edge, Option.map_some, Option.some.injEq] at ends
    exact ⟨e, ends ▸ edge⟩

private theorem upperNeighbours_returns (valid : g.Consistent) (upToDown : Bool) (v : Nat) {prev : List Nat}
    (labelled : ∀ w ∈ prev, (g.vertexLabel w).isSome) :
    ∃ upn, (upperNeighbours g upToDown v prev : Outcome ε (List Nat)) = .returns upn ∧
      ∀ w ∈ upn, w ∈ prev ∧ Joins g upToDown w v := by
  induction prev with
  | nil => exact ⟨[], rfl, by simp⟩
  | cons w prev ih =>
    obtain ⟨answer, tested, sound⟩ := joined_returns (ε := ε) valid upToDown v (labelled w List.mem_cons_self)
    obtain ⟨others, returned, members⟩ := ih fun w member => labelled w (List.mem_cons_of_mem _ member)
    refine ⟨if answer then w :: others else others, by simp [upperNeighbours, tested, returned], fun x member => ?_⟩
    have rest : x ∈ others → x ∈ w :: prev ∧ Joins g upToDown x v := fun member =>
      ⟨List.mem_cons_of_mem _ (members x member).1, (members x member).2⟩
    cases answer with
    | false => exact rest member
    | true =>
      rcases List.mem_cons.mp member with rfl | member
      · exact ⟨List.mem_cons_self, sound rfl⟩
      · exact rest member

/-- Number of a rank in the direction of the sweep. -/
def levelOf (order : List (List Nat)) (upToDown : Bool) (i : Nat) : Nat := if upToDown then i else order.length - 1 - i

def level (order : List (List Nat)) (upToDown : Bool) (v : Vertex g) : Nat := levelOf order upToDown (rankOf order v)

/-- The order of places in the direction of the sweep along a rank. -/
def Before (leftToRight : Bool) (a b : Nat) : Prop := if leftToRight then a < b else b < a

theorem Before.iff {a b c d : Nat} (first : Before leftToRight a b) (second : Before leftToRight c d) :
    (a < b ↔ c < d) ∧ (b < a ↔ d < c) := by
  unfold Before at first second
  cases leftToRight <;> simp only [Bool.false_eq_true, if_false, if_true] at first second <;> omega

private theorem before_of_not {a b last : Nat} (bound : ¬Before leftToRight last a) (beyond : Before leftToRight last b) :
    Before leftToRight a b := by
  unfold Before at *
  cases leftToRight <;> simp only [Bool.false_eq_true, if_false, if_true] at * <;> omega

theorem Before.asymm {a b : Nat} (before : Before leftToRight a b) : ¬Before leftToRight b a := by
  unfold Before at *
  cases leftToRight <;> simp only [Bool.false_eq_true, if_false, if_true] at * <;> omega

private theorem not_before_self (leftToRight : Bool) (a : Nat) : ¬Before leftToRight a a := by
  cases leftToRight <;> simp [Before]

/-- The tables of a state, and what the links between vertices satisfy. -/
structure Holds (order : List (List Nat)) (type1 : List (Nat × Nat)) (upToDown : Bool) (next : Vertex g → Option (Vertex g))
    (root align : Vertex g → Vertex g) (s : Sugiyama.Alignment) : Prop where
  rings : Rings (level order upToDown) next root align
  rootTable : Table g s.root root
  alignTable : Table g s.align align
  joined : ∀ u v, next u = some v → Joins g upToDown u v
  unmarked : ∀ u v, next u = some v → (u.1, v.1) ∉ type1 ∧ (v.1, u.1) ∉ type1
  apart : ∀ u v u' v', next u = some v → next u' = some v' → rankOf order u = rankOf order u' →
    (placeOf order u < placeOf order u' ↔ placeOf order v < placeOf order v')

/-- The links into the current level `here` start at `r` or before it, and end in vertices that are `behind`. -/
structure Swept (order : List (List Nat)) (upToDown leftToRight : Bool) (here : Nat) (behind : Vertex g → Prop)
    (next : Vertex g → Option (Vertex g)) (r : Option Nat) : Prop where
  low : ∀ u v, next u = some v → level order upToDown v ≤ here
  bound : ∀ u v, next u = some v → level order upToDown v = here → ∃ last ∈ r, ¬Before leftToRight last (placeOf order u)
  past : ∀ u v, next u = some v → level order upToDown v = here → behind v

theorem Holds.link {next : Vertex g → Option (Vertex g)} {root align : Vertex g → Vertex g} {s : Sugiyama.Alignment} {here : Nat}
    {behind : Vertex g → Prop} (holds : Holds order type1 upToDown next root align s)
    (swept : Swept order upToDown leftToRight here behind next s.r) {um v : Vertex g} (free : align v = v)
    (arrives : level order upToDown v = here) (above : level order upToDown um + 1 = here) (edge : Joins g upToDown um v)
    (unmarked : (um.1, v.1) ∉ type1 ∧ (v.1, um.1) ∉ type1) (beyond : ∀ r ∈ s.r, Before leftToRight r (placeOf order um))
    (ahead : ∀ x, behind x → x = v ∨ Before leftToRight (placeOf order x) (placeOf order v)) (own : behind v) :
    ∃ next' root' align', Holds order type1 upToDown next' root' align'
        ⟨s.root.insert v (root um), (s.align.insert um v).insert v (root um), some (placeOf order um)⟩ ∧
      Swept order upToDown leftToRight here behind next' (some (placeOf order um)) := by
  have starts := (holds.rings.align_eq_self.mp free).2
  have last : next um = none := by
    cases step : next um with
    | none => rfl
    | some x =>
      have rise := holds.rings.rises um x step
      obtain ⟨r, known, bound⟩ := swept.bound um x step (by omega)
      exact absurd (beyond r known) bound
  -- every older link between the two ranks
  have older (u' v' : Vertex g) (step : next u' = some v') (into : level order upToDown v' = here) :
      Before leftToRight (placeOf order u') (placeOf order um) ∧ Before leftToRight (placeOf order v') (placeOf order v) := by
    obtain ⟨r, known, bound⟩ := swept.bound u' v' step into
    refine ⟨before_of_not bound (beyond r known), ?_⟩
    rcases ahead v' (swept.past u' v' step into) with same | before
    · exact absurd (same ▸ step) (starts u')
    · exact before
  have into (u' v' : Vertex g) (step : next u' = some v') (rank : rankOf order u' = rankOf order um) :
      level order upToDown v' = here := by
    have rise := holds.rings.rises u' v' step
    have same : level order upToDown u' = level order upToDown um := congrArg (levelOf order upToDown) rank
    omega
  have step (w x : Vertex g) (moved : Function.update next um (some v) w = some x) : w = um ∧ x = v ∨ next w = some x := by
    by_cases same : w = um
    · subst same
      exact .inl ⟨rfl, by simpa using moved.symm⟩
    · exact .inr (by simpa [same] using moved)
  refine ⟨_, _, _, ⟨holds.rings.link last free (by omega), holds.rootTable.insert v (root um),
    (holds.alignTable.insert um v).insert v (root um), ?_, ?_, ?_⟩, ?_, ?_, ?_⟩
  · intro w x moved
    rcases step w x moved with ⟨rfl, rfl⟩ | old
    · exact edge
    · exact holds.joined w x old
  · intro w x moved
    rcases step w x moved with ⟨rfl, rfl⟩ | old
    · exact unmarked
    · exact holds.unmarked w x old
  · intro u x u' x' first second rank
    rcases step u x first with ⟨rfl, rfl⟩ | old <;> rcases step u' x' second with ⟨rfl, rfl⟩ | old'
    · simp
    · have places := older u' x' old' (into u' x' old' rank.symm)
      exact (places.1.iff places.2).2
    · have places := older u x old (into u x old rank)
      exact (places.1.iff places.2).1
    · exact holds.apart u x u' x' old old' rank
  · intro w x moved
    rcases step w x moved with ⟨rfl, rfl⟩ | old
    · exact arrives.le
    · exact swept.low w x old
  · intro w x moved level
    refine ⟨_, rfl, ?_⟩
    rcases step w x moved with ⟨rfl, rfl⟩ | old
    · exact not_before_self _ _
    · exact (older w x old level).1.asymm
  · intro w x moved level
    rcases step w x moved with ⟨rfl, rfl⟩ | old
    · exact own
    · exact swept.past w x old level

/-- The sweep within the rank of level `here`. -/
def Progress (g : AdjacencyList Nat Nat) (order : List (List Nat)) (type1 : List (Nat × Nat)) (upToDown leftToRight : Bool)
    (here : Nat) (behind : Vertex g → Prop) (s : Sugiyama.Alignment) : Prop :=
  ∃ next root align, Holds order type1 upToDown next root align s ∧
    Swept order upToDown leftToRight here behind next s.r

theorem Progress.mono {here : Nat} {behind behind' : Vertex g → Prop} {s : Sugiyama.Alignment}
    (progress : Progress g order type1 upToDown leftToRight here behind s) (weaker : ∀ v, behind v → behind' v) :
    Progress g order type1 upToDown leftToRight here behind' s := by
  obtain ⟨next, root, align, holds, swept⟩ := progress
  exact ⟨next, root, align, holds, swept.low, swept.bound, fun u v step into => weaker v (swept.past u v step into)⟩

private theorem alignMedian_returns (layered : Layered g order) {prev upn : List Nat} {above m : Nat} {v : Vertex g}
    (found : order[above]? = some prev) (levels : levelOf order upToDown above + 1 = level order upToDown v)
    (members : ∀ w ∈ upn, w ∈ prev ∧ Joins g upToDown w v) (inside : m < upn.length) {behind : Vertex g → Prop}
    (ahead : ∀ x, behind x → x = v ∨ Before leftToRight (placeOf order x) (placeOf order v)) (own : behind v)
    {s : Sugiyama.Alignment}
    (progress : Progress g order type1 upToDown leftToRight (level order upToDown v) behind s) :
    ∃ next, (alignMedian type1 leftToRight prev upn v s m : Outcome ε Sugiyama.Alignment) = .returns next ∧
      Progress g order type1 upToDown leftToRight (level order upToDown v) behind next := by
  obtain ⟨next, root, align, holds, swept⟩ := progress
  have current := holds.alignTable.get v
  by_cases free : align v = v
  · have member := members upn[m] (List.getElem_mem inside)
    obtain ⟨labelled, rank⟩ := (layered.mem_iff found).mp member.1
    let um : Vertex g := ⟨upn[m], labelled⟩
    have place := position_returns (ε := ε) layered.nodup found member.1
    have first := holds.rootTable.get um
    have step : (alignMedian type1 leftToRight prev upn v s m : Outcome ε Sugiyama.Alignment) =
        if (um.1, v.1) ∉ type1 ∧ (v.1, um.1) ∉ type1 ∧ isBeyond leftToRight s.r (placeOf order um) = true then do
          let a ← .unwrap s.root[um.1]?
          let b ← .unwrap (s.root.insert v.1 a)[v.1]?
          .returns ⟨s.root.insert v a, (s.align.insert um v).insert v b, some (placeOf order um)⟩
        else .returns s := by
      simp only [alignMedian, current, free, List.getElem?_eq_getElem inside, Outcome.unwrap, Outcome.returns_bind, if_true,
        place, Outcome.pure_eq]
      rfl
    by_cases allowed : (um.1, v.1) ∉ type1 ∧ (v.1, um.1) ∉ type1 ∧ isBeyond leftToRight s.r (placeOf order um) = true
    · have spread : ∀ r ∈ s.r, Before leftToRight r (placeOf order um) := by
        intro r known
        have passed := allowed.2.2
        simp only [isBeyond, Option.mem_def.mp known] at passed
        unfold Before
        cases leftToRight <;> simpa using passed
      obtain ⟨next', root', align', holds', swept'⟩ := holds.link swept free rfl
        (by simpa only [level, um, rank] using levels) member.2 ⟨allowed.1, allowed.2.1⟩ spread ahead own
      refine ⟨_, ?_, next', root', align', holds', swept'⟩
      have code : (alignMedian type1 leftToRight prev upn v s m : Outcome ε Sugiyama.Alignment) =
          .returns ⟨s.root.insert v (root um), (s.align.insert um v).insert v (root um), some (placeOf order um)⟩ := by
        rw [step, if_pos allowed]
        simp [um, first, Outcome.unwrap]
      exact code
    · refine ⟨s, ?_, next, root, align, holds, swept⟩
      rw [step, if_neg allowed]
  · have moved : (align v).1 ≠ v.1 := fun same => free (Subtype.ext same)
    refine ⟨s, ?_, next, root, align, holds, swept⟩
    simp [alignMedian, current, moved, Outcome.unwrap]

private theorem medians_lt {n m : Nat} (some : 0 < n) (member : m ∈ medians n) : m < n := by
  unfold medians at member
  split at member <;> simp only [List.mem_cons, List.not_mem_nil, or_false] at member <;> omega

private theorem alignVertex_returns (layered : Layered g order) {prev : List Nat} {above : Nat} {v : Vertex g}
    (found : order[above]? = some prev) (levels : levelOf order upToDown above + 1 = level order upToDown v) {rest : List Nat}
    (ahead : ∀ w ∈ rest, Before leftToRight (placeOf order v) (placeOf order w)) {s : Sugiyama.Alignment}
    (progress : Progress g order type1 upToDown leftToRight (level order upToDown v)
      (fun x => ∀ w ∈ v.1 :: rest, Before leftToRight (placeOf order x) (placeOf order w)) s) :
    ∃ next, (alignVertex g type1 upToDown leftToRight prev s v : Outcome ε Sugiyama.Alignment) = .returns next ∧
      Progress g order type1 upToDown leftToRight (level order upToDown v)
        (fun x => ∀ w ∈ rest, Before leftToRight (placeOf order x) (placeOf order w)) next := by
  obtain ⟨upn, neighbours, members⟩ := upperNeighbours_returns (ε := ε) layered.valid upToDown v
    fun w member => ((layered.mem_iff found).mp member).1
  simp only [alignVertex, neighbours, Outcome.returns_bind]
  by_cases some : 0 < upn.length
  · rw [if_pos some]
    let behind : Vertex g → Prop := fun x => x = v ∨ ∀ w ∈ v.1 :: rest, Before leftToRight (placeOf order x) (placeOf order w)
    obtain ⟨next, returned, -, kept⟩ := Outcome.fold_returns (f := alignMedian (ε := ε) type1 leftToRight prev upn v)
      (fun left s => (∀ m ∈ left, m < upn.length) ∧ Progress g order type1 upToDown leftToRight (level order upToDown v) behind s)
      (fun m left s holds => by
        obtain ⟨inside, progress⟩ := holds
        obtain ⟨next, returned, kept⟩ := alignMedian_returns (ε := ε) layered found levels members (inside m List.mem_cons_self)
          (fun x past => past.imp id fun past => past v List.mem_cons_self) (.inl rfl) progress
        exact ⟨next, returned, fun m member => inside m (List.mem_cons_of_mem _ member), kept⟩)
      (medians upn.length) s ⟨fun m => medians_lt some, progress.mono fun x past => .inr past⟩
    refine ⟨next, returned, kept.mono fun x past => ?_⟩
    rcases past with rfl | past
    · exact ahead
    · exact fun w member => past w (List.mem_cons_of_mem _ member)
  · rw [if_neg some]
    exact ⟨s, rfl, progress.mono fun x past w member => past w (List.mem_cons_of_mem _ member)⟩

private theorem sweep_sorted (nodup : order.flatten.Nodup) (leftToRight : Bool) {i : Nat} {row : List Nat} (found : order[i]? = some row) :
    (if leftToRight then row else row.reverse).Pairwise fun u v => Before leftToRight (placeOf order u) (placeOf order v) := by
  have sorted := row_sorted nodup found
  cases leftToRight
  · simpa [Before, List.pairwise_reverse] using sorted
  · simpa [Before] using sorted

/-- The sweep between ranks, with links into some levels only. -/
def Reached (g : AdjacencyList Nat Nat) (order : List (List Nat)) (type1 : List (Nat × Nat)) (upToDown : Bool)
    (levels : Nat → Prop) (s : Sugiyama.Alignment) : Prop :=
  ∃ (next : Vertex g → Option (Vertex g)) (root align : Vertex g → Vertex g),
    Holds order type1 upToDown next root align s ∧ ∀ u v, next u = some v → levels (level order upToDown v)

private theorem alignRank_returns (layered : Layered g order) (leftToRight : Bool) {i above : Nat} (inside : i < order.length)
    (previous : above = if upToDown then i - 1 else i + 1) (within : above < order.length)
    (levels : levelOf order upToDown above + 1 = levelOf order upToDown i) {s : Sugiyama.Alignment}
    (reached : Reached g order type1 upToDown (· < levelOf order upToDown i) s) :
    ∃ final, (alignRank order g type1 upToDown leftToRight s i : Outcome ε Sugiyama.Alignment) = .returns final ∧
      Reached g order type1 upToDown (· ≤ levelOf order upToDown i) final := by
  obtain ⟨next, root, align, holds, earlier⟩ := reached
  have found := List.getElem?_eq_getElem inside
  have foundPrev := List.getElem?_eq_getElem within
  let items := if leftToRight then order[i] else order[i].reverse
  have items_mem (w : Nat) (member : w ∈ items) : w ∈ order[i] := by
    cases leftToRight <;> simpa [items] using member
  obtain ⟨final, returned, ⟨next', root', align', holds', swept⟩, -⟩ := Outcome.fold_returns
    (f := alignVertex (ε := ε) g type1 upToDown leftToRight order[above])
    (fun rest s => Progress g order type1 upToDown leftToRight (levelOf order upToDown i)
        (fun x => ∀ w ∈ rest, Before leftToRight (placeOf order x) (placeOf order w)) s ∧
      (∀ w ∈ rest, w ∈ order[i]) ∧ rest.Pairwise fun u v => Before leftToRight (placeOf order u) (placeOf order v))
    (fun v rest s given => by
      obtain ⟨progress, members, sorted⟩ := given
      obtain ⟨labelled, rank⟩ := (layered.mem_iff found).mp (members v List.mem_cons_self)
      have here : level order upToDown (⟨v, labelled⟩ : Vertex g) = levelOf order upToDown i := congrArg _ rank
      rw [List.pairwise_cons] at sorted
      rw [← here] at progress
      obtain ⟨next, returned, kept⟩ := alignVertex_returns (ε := ε) layered foundPrev (levels.trans here.symm) sorted.1 progress
      rw [here] at kept
      exact ⟨next, returned, kept, fun w member => members w (List.mem_cons_of_mem _ member), sorted.2⟩)
    items { s with r := none }
    ⟨⟨next, root, align, ⟨holds.rings, holds.rootTable, holds.alignTable, holds.joined, holds.unmarked, holds.apart⟩,
        fun u v step => (earlier u v step).le, fun u v step into => absurd into (earlier u v step).ne,
        fun u v step into => absurd into (earlier u v step).ne⟩, items_mem, sweep_sorted layered.nodup leftToRight found⟩
  refine ⟨final, ?_, next', root', align', holds', swept.low⟩
  rw [← returned]
  cases upToDown with
  | true =>
    have above : order[i - 1]? = some order[above] := by simp [previous]
    simp [alignRank, found, above, Outcome.unwrap, items]
  | false =>
    have above : order[i + 1]? = some order[above] := by simp [previous]
    simp [alignRank, found, above, Outcome.unwrap, items]

theorem Reached.mono {levels levels' : Nat → Prop} {s : Sugiyama.Alignment} (reached : Reached g order type1 upToDown levels s)
    (weaker : ∀ l, levels l → levels' l) : Reached g order type1 upToDown levels' s := by
  obtain ⟨next, root, align, holds, low⟩ := reached
  exact ⟨next, root, align, holds, fun u v step => weaker _ (low u v step)⟩

/-- The ranks as the sweep meets them, all but the first. -/
def ranksOf (order : List (List Nat)) (upToDown : Bool) : List Nat :=
  if upToDown then List.range' 1 (order.length - 1) else (List.range (order.length - 1)).reverse

private theorem ranksOf_sorted (order : List (List Nat)) (upToDown : Bool) :
    (ranksOf order upToDown).Pairwise fun i j => levelOf order upToDown i < levelOf order upToDown j := by
  cases upToDown with
  | true => simpa [ranksOf, levelOf] using List.pairwise_lt_range'
  | false =>
    simp only [ranksOf, levelOf, Bool.false_eq_true, if_false, List.pairwise_reverse]
    apply List.pairwise_lt_range.imp_of_mem
    intro i j first second below
    rw [List.mem_range] at first second
    omega

private theorem exists_previous {i : Nat} (member : i ∈ ranksOf order upToDown) : i < order.length ∧ ∃ above,
    above = (if upToDown then i - 1 else i + 1) ∧ above < order.length ∧
      levelOf order upToDown above + 1 = levelOf order upToDown i := by
  refine ⟨?_, _, rfl, ?_, ?_⟩
  all_goals
    cases upToDown
    all_goals
      simp only [ranksOf, levelOf, Bool.false_eq_true, if_false, if_true, List.mem_reverse, List.mem_range, List.mem_range'_1] at *
      omega

private theorem alignRanks_returns (layered : Layered g order) (leftToRight : Bool) {s : Sugiyama.Alignment}
    (reached : Reached g order type1 upToDown (fun _ => False) s) :
    ∃ final, (Outcome.fold (alignRank order g type1 upToDown leftToRight) s (ranksOf order upToDown) :
        Outcome ε Sugiyama.Alignment) = .returns final ∧ Reached g order type1 upToDown (fun _ => True) final := by
  obtain ⟨final, returned, last, -⟩ := Outcome.fold_returns (f := alignRank (ε := ε) order g type1 upToDown leftToRight)
    (fun rest s => Reached g order type1 upToDown (fun l => ∀ j ∈ rest, l < levelOf order upToDown j) s ∧
      (∀ j ∈ rest, j ∈ ranksOf order upToDown) ∧
      rest.Pairwise fun i j => levelOf order upToDown i < levelOf order upToDown j)
    (fun i rest s holds => by
      obtain ⟨reached, members, sorted⟩ := holds
      obtain ⟨inside, above, previous, within, levels⟩ := exists_previous (members i List.mem_cons_self)
      rw [List.pairwise_cons] at sorted
      obtain ⟨next, returned, low⟩ := alignRank_returns (ε := ε) layered leftToRight inside previous within levels
        (reached.mono fun l below => below i List.mem_cons_self)
      exact ⟨next, returned, low.mono fun l low j member => low.trans_lt (sorted.1 j member),
        fun j member => members j (List.mem_cons_of_mem _ member), sorted.2⟩)
    (ranksOf order upToDown) s
    ⟨reached.mono fun l never => never.elim, fun j member => member, ranksOf_sorted order upToDown⟩
  exact ⟨final, returned, last.mono fun _ _ => trivial⟩

/-- The cycles of `align` are blocks of vertices on consecutive ranks, with the root at the end where the sweep starts. -/
structure Blocks (g : AdjacencyList Nat Nat) (order : List (List Nat)) (type1 : List (Nat × Nat)) (upToDown : Bool)
    (align : Equiv.Perm (Vertex g)) (root : Vertex g → Vertex g) : Prop where
  constant : ∀ u v, align.SameCycle u v → root u = root v
  own : ∀ v, align.SameCycle v (root v)
  first : ∀ v, if upToDown then rankOf order (root v) ≤ rankOf order v else rankOf order v ≤ rankOf order (root v)
  once : ∀ u v, align.SameCycle u v → rankOf order u = rankOf order v → u = v
  consecutive : ∀ u v i, align.SameCycle u v → rankOf order u ≤ i → i ≤ rankOf order v →
    ∃ w, align.SameCycle u w ∧ rankOf order w = i
  joined : ∀ u v, align.SameCycle u v → rankOf order v = rankOf order u + 1 → g.Adjacent u v
  unmarked : ∀ u v, align.SameCycle u v → rankOf order v = rankOf order u + 1 → (u.1, v.1) ∉ type1 ∧ (v.1, u.1) ∉ type1
  apart : ∀ u v u' v', align.SameCycle u v → align.SameCycle u' v' → rankOf order v = rankOf order u + 1 →
    rankOf order u' = rankOf order u → rankOf order v' = rankOf order v →
    (placeOf order u < placeOf order u' ↔ placeOf order v < placeOf order v')

theorem level_eq (layered : Layered g order) (upToDown : Bool) (v : Vertex g) :
    if upToDown then level order upToDown v = rankOf order v else level order upToDown v + rankOf order v + 1 = order.length := by
  have inside := layered.rank_lt v.2
  cases upToDown <;> simp only [level, levelOf, Bool.false_eq_true, if_false, if_true]
  omega

private theorem linked_of_ranks (layered : Layered g order) {next : Vertex g → Option (Vertex g)} {root align : Vertex g → Vertex g}
    (rings : Rings (level order upToDown) next root align) {u v : Vertex g} (same : root u = root v)
    (ranks : rankOf order v = rankOf order u + 1) : if upToDown then next u = some v else next v = some u := by
  have first := level_eq layered upToDown u
  have second := level_eq layered upToDown v
  cases upToDown with
  | true =>
    simp only [if_true] at first second ⊢
    exact rings.next_of_root same (by omega)
  | false =>
    simp only [Bool.false_eq_true, if_false] at first second ⊢
    exact rings.next_of_root same.symm (by omega)

theorem Holds.blocks (layered : Layered g order) {next : Vertex g → Option (Vertex g)} {root align : Vertex g → Vertex g}
    {s : Sugiyama.Alignment} (holds : Holds order type1 upToDown next root align s) :
    Blocks g order type1 upToDown holds.rings.perm root := by
  have rings := holds.rings
  have cycle {u v : Vertex g} : rings.perm.SameCycle u v ↔ root u = root v := rings.sameCycle_iff
  have linked {u v : Vertex g} (same : rings.perm.SameCycle u v) (ranks : rankOf order v = rankOf order u + 1) :=
    linked_of_ranks layered rings (cycle.mp same) ranks
  have levels (v : Vertex g) := level_eq layered upToDown v
  constructor
  · exact fun u v same => cycle.mp same
  · exact fun v => cycle.mpr (rings.root_root v).symm
  · intro v
    have low := rings.root_level_le v
    have here := levels v
    have there := levels (root v)
    cases upToDown <;> simp only [Bool.false_eq_true, if_false, if_true] at here there ⊢ <;> omega
  · intro u v same ranks
    exact rings.eq_of_root (cycle.mp same) (congrArg (levelOf order upToDown) ranks)
  · intro u v i same above below
    have first := levels u
    have last := levels v
    cases upToDown with
    | true =>
      simp only [if_true] at first last
      obtain ⟨w, root, height⟩ := rings.exists_level (cycle.mp same) i (by omega) (by omega)
      have reached := levels w
      simp only [if_true] at reached
      exact ⟨w, cycle.mpr root.symm, by omega⟩
    | false =>
      simp only [Bool.false_eq_true, if_false] at first last
      obtain ⟨w, root, height⟩ := rings.exists_level (cycle.mp same).symm (order.length - 1 - i) (by omega) (by omega)
      have reached := levels w
      simp only [Bool.false_eq_true, if_false] at reached
      exact ⟨w, cycle.mpr ((cycle.mp same).trans root.symm), by omega⟩
  · intro u v same ranks
    have link := linked same ranks
    cases upToDown with
    | true => exact holds.joined u v link
    | false => exact holds.joined v u link
  · intro u v same ranks
    have link := linked same ranks
    cases upToDown with
    | true => exact holds.unmarked u v link
    | false => exact (holds.unmarked v u link).symm
  · intro u v u' v' same same' ranks upper lower
    have link := linked same ranks
    have link' := linked same' (by omega)
    cases upToDown with
    | true => exact holds.apart u v u' v' link link' upper.symm
    | false => exact (holds.apart v u v' u' link link' lower.symm).symm

theorem verticalAlignment_blocks (layered : Layered g order) (rows : order ≠ []) (vertices : Enumeration Nat)
    (type1 : List (Nat × Nat)) (upToDown leftToRight : Bool) :
    ∃ root align, (verticalAlignment vertices order type1 g upToDown leftToRight :
        Outcome ε (Std.ExtTreeMap Nat Nat × Std.ExtTreeMap Nat Nat)) = .returns (root, align) ∧
      ∃ (first : Vertex g → Vertex g) (perm : Equiv.Perm (Vertex g)), Table g root first ∧ Table g align perm ∧
        Blocks g order type1 upToDown perm first := by
  have start : Reached g order type1 upToDown (fun _ => False)
      ⟨(g.vertices vertices).foldl (fun map v => map.insert v v) ∅,
        (g.vertices vertices).foldl (fun map v => map.insert v v) ∅, none⟩ := by
    refine ⟨fun _ => none, id, id, ⟨.alone _, .own vertices, .own vertices, ?_, ?_, ?_⟩, ?_⟩ <;> simp
  obtain ⟨final, returned, next, first, align, holds, -⟩ := alignRanks_returns (ε := ε) layered leftToRight start
  refine ⟨final.root, final.align, ?_, first, holds.rings.perm, holds.rootTable, holds.alignTable, holds.blocks layered⟩
  have long : order.length ≠ 0 := by simpa using rows
  simp only [verticalAlignment, if_neg long]
  rw [show (if upToDown then List.range' 1 (order.length - 1) else (List.range (order.length - 1)).reverse) =
    ranksOf order upToDown from rfl, returned]
  rfl

/-- Two ranks of two vertices, swept upwards from the right. -/
theorem verticalAlignment_blocks_two_ranks :
    let g := AdjacencyList.ofLists [0, 0, 0, 0] [(0, 0, 2), (1, 0, 3), (2, 1, 3)]
    ∃ root align, (verticalAlignment .canonical [[0, 1], [3, 2]] [(0, 2)] g false false :
        Outcome Empty (Std.ExtTreeMap Nat Nat × Std.ExtTreeMap Nat Nat)) = .returns (root, align) ∧
      ∃ (first : Vertex g → Vertex g) (perm : Equiv.Perm (Vertex g)), Table g root first ∧ Table g align perm ∧
        Blocks g [[0, 1], [3, 2]] [(0, 2)] false perm first :=
  verticalAlignment_blocks (.ofLists (by decide) (by decide)) (by decide) .canonical [(0, 2)] false false

end Panopticon.Proofs.Alignment
