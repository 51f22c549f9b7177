import Panopticon.Search
import Panopticon.Proofs.Store

/-! The search of `is_connected`. A vertex is marked when it is taken from the stack and not when
it is pushed, so it can be there many times. A turn that takes a marked vertex leaves fewer
marked ones on the stack. -/

namespace Panopticon.Proofs.Connected
open Panopticon.Library Panopticon.AdjacencyList Panopticon.Connectivity Relation

variable {N E ε : Type} {g : AdjacencyList N E} {start : Nat}

def Beside (g : AdjacencyList N E) (u v : Nat) : Prop := g.Adjacent u v ∨ g.Adjacent v u

private theorem beside_symm {u v : Nat} (beside : Beside g u v) : Beside g v u := Or.symm beside

theorem labelled_of_joined (valid : g.Consistent) (entry : (g.vertexLabel start).isSome) {v : Nat}
    (joined : ReflTransGen (Beside g) start v) : (g.vertexLabel v).isSome := by
  cases joined with
  | refl => exact entry
  | tail _ last =>
    rcases last with ⟨e, edge⟩ | ⟨e, edge⟩
    · exact (valid.ends e _ _ edge).2
    · exact (valid.ends e _ _ edge).1

private theorem neighbours_returns (valid : g.Consistent) {v : Nat} (labelled : (g.vertexLabel v).isSome) :
    ∃ ed, (neighbours g v : Outcome ε (List Nat)) = .returns ed ∧ ∀ w, w ∈ ed ↔ Beside g v w := by
  obtain ⟨out, listOut⟩ := Option.isSome_iff_exists.mp ((valid.outKeys v).mpr labelled)
  obtain ⟨into, listIn⟩ := Option.isSome_iff_exists.mp ((valid.inKeys v).mpr labelled)
  have target : ∀ e ∈ out, ∃ w, (.unwrap (g.target e) : Outcome ε Nat) = .returns w := by
    intro e member
    obtain ⟨w, stored⟩ := ((valid.outList v out listOut).2 e).mp member
    exact ⟨w, by simp [AdjacencyList.target, stored]⟩
  have source : ∀ e ∈ into, ∃ w, (.unwrap (g.source e) : Outcome ε Nat) = .returns w := by
    intro e member
    obtain ⟨w, stored⟩ := ((valid.inList v into listIn).2 e).mp member
    exact ⟨w, by simp [AdjacencyList.source, stored]⟩
  obtain ⟨targets, foundOut⟩ := Outcome.each_returns target
  obtain ⟨sources, foundIn⟩ := Outcome.each_returns source
  have code : (neighbours g v : Outcome ε (List Nat)) = .returns (targets ++ sources) := by
    simp [neighbours, outgoing, incoming, listOut, listIn, foundOut, foundIn]
  refine ⟨targets ++ sources, code, fun w => ?_⟩
  rw [List.mem_append, Outcome.mem_each foundOut, Outcome.mem_each foundIn, Beside]
  apply or_congr
  · constructor
    · intro holds
      obtain ⟨e, member, found⟩ := holds
      obtain ⟨x, stored⟩ := ((valid.outList v out listOut).2 e).mp member
      obtain rfl : x = w := by simpa [AdjacencyList.target, stored, Outcome.unwrap] using found
      exact ⟨e, stored⟩
    · intro holds
      obtain ⟨e, stored⟩ := holds
      exact ⟨e, ((valid.outList v out listOut).2 e).mpr ⟨w, stored⟩, by simp [AdjacencyList.target, stored]⟩
  · constructor
    · intro holds
      obtain ⟨e, member, found⟩ := holds
      obtain ⟨x, stored⟩ := ((valid.inList v into listIn).2 e).mp member
      obtain rfl : x = w := by simpa [AdjacencyList.source, stored, Outcome.unwrap] using found
      exact ⟨e, stored⟩
    · intro holds
      obtain ⟨e, stored⟩ := holds
      exact ⟨e, ((valid.inList v into listIn).2 e).mpr ⟨w, stored⟩, by simp [AdjacencyList.source, stored]⟩

private theorem pushed_eq (seen : Std.ExtTreeSet Nat) (ed stack : List Nat) :
    ed.foldl (fun stack v => if seen.contains v then stack else v :: stack) stack =
      (ed.filter fun v => !seen.contains v).reverse ++ stack := by
  induction ed generalizing stack with
  | nil => rfl
  | cons v ed ih =>
    rw [List.foldl_cons, ih]
    by_cases known : seen.contains v <;> simp [known]

/-- What is known of the stack and the marks. -/
structure Spreads (g : AdjacencyList N E) (start : Nat) (s : Connectivity) : Prop where
  stack : ∀ v ∈ s.stack, ReflTransGen (Beside g) start v
  seen : ∀ v ∈ s.seen, ReflTransGen (Beside g) start v
  entry : start ∈ s.seen ∨ start ∈ s.stack
  closed : ∀ v ∈ s.seen, ∀ w, Beside g v w → w ∈ s.seen ∨ w ∈ s.stack

theorem Spreads.initial (g : AdjacencyList N E) (start : Nat) : Spreads g start ⟨[start], ∅⟩ where
  stack := by simp [ReflTransGen.refl]
  seen := by simp
  entry := by simp
  closed := by simp

theorem Spreads.labelled (valid : g.Consistent) (entry : (g.vertexLabel start).isSome) {s : Connectivity}
    (spreads : Spreads g start s) : ∀ v ∈ s.seen, (g.vertexLabel v).isSome :=
  fun v member => labelled_of_joined valid entry (spreads.seen v member)

/-- The vertices that are not marked, then the marked ones on the stack. -/
def measure (g : AdjacencyList N E) (s : Connectivity) : Nat ×ₗ Nat :=
  toLex (g.numVertices - s.seen.size, s.stack.countP fun v => s.seen.contains v)

/-- A turn takes a vertex from the stack. Either it is new, or the stack has a marked vertex less. -/
theorem turn_progress (valid : g.Consistent) (entry : (g.vertexLabel start).isSome) {s : Connectivity}
    (spreads : Spreads g start s) : s.stack = [] ∧ (turn g s : Outcome ε (Option Connectivity)) = .returns none ∨
      ∃ next, (turn g s : Outcome ε (Option Connectivity)) = .returns (some next) ∧ Spreads g start next ∧
        measure g next < measure g s := by
  obtain ⟨stack, seen⟩ := s
  cases stack with
  | nil => exact .inl ⟨rfl, rfl⟩
  | cons vx stack =>
    have joined := spreads.stack vx (List.mem_cons_self ..)
    obtain ⟨ed, code, members⟩ := neighbours_returns (ε := ε) valid (labelled_of_joined valid entry joined)
    let marked := seen.insert vx
    let fresh := (ed.filter fun v => !marked.contains v).reverse
    have moved : (turn g ⟨vx :: stack, seen⟩ : Outcome ε (Option Connectivity)) = .returns (some ⟨fresh ++ stack, marked⟩) := by
      simp only [turn, code, Outcome.returns_bind, Outcome.pure_eq, pushed_eq]
      rfl
    have mem_marked : ∀ w, w ∈ marked ↔ vx = w ∨ w ∈ seen := by simp [marked, Std.ExtTreeSet.mem_insert]
    have mem_fresh : ∀ w, w ∈ fresh ↔ Beside g vx w ∧ w ∉ marked := by
      intro w
      simp only [fresh, List.mem_reverse, List.mem_filter, members, Bool.not_eq_true', ← Bool.not_eq_true,
        Std.ExtTreeSet.contains_iff_mem]
    have next : Spreads g start ⟨fresh ++ stack, marked⟩ := by
      constructor
      · intro v member
        rcases List.mem_append.mp member with member | member
        · exact joined.tail ((mem_fresh v).mp member).1
        · exact spreads.stack v (List.mem_cons_of_mem _ member)
      · intro v member
        rcases (mem_marked v).mp member with same | member
        · exact same ▸ joined
        · exact spreads.seen v member
      · rcases spreads.entry with known | waiting
        · exact .inl ((mem_marked start).mpr (.inr known))
        · rcases List.mem_cons.mp waiting with same | waiting
          · exact .inl ((mem_marked start).mpr (.inl same.symm))
          · exact .inr (List.mem_append_right _ waiting)
      · intro v member w beside
        by_cases known : w ∈ marked
        · exact .inl known
        · rcases (mem_marked v).mp member with same | member
          · exact .inr (List.mem_append_left _ ((mem_fresh w).mpr ⟨same ▸ beside, known⟩))
          · rcases spreads.closed v member w beside with seen | waiting
            · exact absurd ((mem_marked w).mpr (.inr seen)) known
            · rcases List.mem_cons.mp waiting with same | waiting
              · exact absurd ((mem_marked w).mpr (.inl same.symm)) known
              · exact .inr (List.mem_append_right _ waiting)
    refine .inr ⟨_, moved, next, ?_⟩
    have size := size_le_numVertices (next.labelled valid entry)
    have count : fresh.countP (fun v => marked.contains v) = 0 := by
      rw [List.countP_eq_zero]
      intro v member
      simpa using ((mem_fresh v).mp member).2
    simp only [measure, List.countP_append, count, zero_add, Prod.Lex.toLex_lt_toLex]
    have grown : marked.size = if vx ∈ seen then seen.size else seen.size + 1 := Std.ExtTreeSet.size_insert
    by_cases known : vx ∈ seen
    · right
      have same : (fun v => marked.contains v) = fun v => seen.contains v := by
        funext v
        have members := mem_marked v
        rw [Bool.eq_iff_iff, Std.ExtTreeSet.contains_iff_mem, Std.ExtTreeSet.contains_iff_mem, members]
        exact or_iff_right_of_imp fun same => same ▸ known
      rw [grown, if_pos known, same, List.countP_cons_of_pos (by simpa using known)]
      exact ⟨rfl, Nat.lt_succ_self _⟩
    · left
      rw [if_neg known] at grown
      change marked.size ≤ g.numVertices at size
      omega

theorem Spreads.complete {s : Connectivity} (spreads : Spreads g start s) (empty : s.stack = []) {v : Nat}
    (joined : ReflTransGen (Beside g) start v) : v ∈ s.seen := by
  induction joined with
  | refl => simpa [empty] using spreads.entry
  | tail _ last ih => simpa [empty] using spreads.closed _ ih _ last

private theorem joined_iff (entry : (g.vertexLabel start).isSome) :
    (∀ v, (g.vertexLabel v).isSome → ReflTransGen (Beside g) start v) ↔
      ∀ u v, (g.vertexLabel u).isSome → (g.vertexLabel v).isSome → ReflTransGen (Beside g) u v := by
  constructor
  · intro all u v labelled labelled'
    have symm : Std.Symm (Beside g) := ⟨fun _ _ => beside_symm⟩
    have back : ReflTransGen (Beside g) u start := ReflTransGen.stdSymm.symm _ _ (all u labelled)
    exact back.trans (all v labelled')
  · intro all v labelled
    exact all start v entry labelled

private theorem numVertices_pos (entry : (g.vertexLabel start).isSome) : g.numVertices ≠ 0 := by
  have one := length_le_numVertices (g := g) (List.nodup_singleton start) (by simpa using entry)
  rw [List.length_singleton] at one
  omega

private theorem search_returns (valid : g.Consistent) (entry : (g.vertexLabel start).isSome) :
    ∃ bound final, (∀ fuel, bound ≤ fuel →
        (Outcome.repeated (fun _ => turn g) fuel 0 ⟨[start], ∅⟩ : Outcome ε Connectivity) = .returns final) ∧
      final.seen.size ≤ g.numVertices ∧
      (final.seen.size = g.numVertices ↔ ∀ v, (g.vertexLabel v).isSome → ReflTransGen (Beside g) start v) := by
  obtain ⟨bound, final, finished, spreads, last, stopped⟩ := Outcome.repeated_halts (fun _ => turn (ε := ε) g)
    (InvImage.wf (measure g) wellFounded_lt) (Spreads g start)
    (fun _ s spreads => (turn_progress valid entry spreads).imp And.right id) 0 _ (Spreads.initial g start)
  have empty : final.stack = [] := by
    rcases turn_progress (ε := ε) valid entry spreads with ⟨empty, -⟩ | ⟨next, moved, -⟩
    · exact empty
    · rw [moved] at stopped
      cases stopped
  refine ⟨bound, final, finished, size_le_numVertices (spreads.labelled valid entry), ?_⟩
  rw [size_eq_numVertices_iff (spreads.labelled valid entry)]
  apply forall₂_congr
  intro v labelled
  exact ⟨spreads.seen v, spreads.complete empty⟩

/-- The connectivity test comes to an end, and tells whether any two vertices are joined. -/
theorem isConnected_exact (valid : g.Consistent) (vertices : Enumeration Nat) :
    ∃ bound answer, (∀ fuel, bound ≤ fuel → (isConnected g vertices fuel : Outcome ε Bool) = .returns answer) ∧
      (answer = true ↔ g.numVertices = 0 ∨
        ∀ u v, (g.vertexLabel u).isSome → (g.vertexLabel v).isSome → ReflTransGen (Beside g) u v) := by
  cases first : (g.vertices vertices).head? with
  | none =>
    refine ⟨0, true, fun fuel _ => by simp [isConnected, first], ?_⟩
    have none : ∀ v, ¬(g.vertexLabel v).isSome := by
      intro v labelled
      have member := (mem_vertices g vertices v).mpr labelled
      rw [List.head?_eq_none_iff.mp first] at member
      cases member
    have joined : ∀ u v, (g.vertexLabel u).isSome → (g.vertexLabel v).isSome → ReflTransGen (Beside g) u v :=
      fun u _ labelled => absurd labelled (none u)
    exact ⟨fun _ => .inr joined, fun _ => rfl⟩
  | some start =>
    have entry := (mem_vertices g vertices start).mp (List.mem_of_head? first)
    obtain ⟨bound, final, finished, inside, exactly⟩ := search_returns (ε := ε) valid entry
    refine ⟨bound, decide (final.seen.size = g.numVertices), fun fuel enough => ?_, ?_⟩
    · simp [isConnected, first, finished fuel enough, inside]
    · rw [decide_eq_true_eq, exactly, joined_iff entry, or_iff_right (numVertices_pos entry)]

/-- Two vertices with a loop and two edges between them. -/
theorem isConnected_exact_parallel :
    let g : AdjacencyList Nat Nat := ((((((new.addVertex 1).1.addVertex 2).1.addEdge 0 0 0).1.addEdge 1 1 0).1).addEdge 2 1 0).1
    ∃ bound answer, (∀ fuel, bound ≤ fuel → (isConnected g .canonical fuel : Outcome Empty Bool) = .returns answer) ∧
      (answer = true ↔ g.numVertices = 0 ∨
        ∀ u v, (g.vertexLabel u).isSome → (g.vertexLabel v).isSome → ReflTransGen (Beside g) u v) :=
  isConnected_exact (((((Consistent.new.addVertex 1).addVertex 2).addEdge 0 0 0).addEdge 1 1 0).addEdge 2 1 0) _

end Panopticon.Proofs.Connected
