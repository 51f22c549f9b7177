import Panopticon.Proofs.DominatorTotal
import Panopticon.Proofs.Liveness
import Panopticon.Proofs.PhiPlacement

/-! The rounds of the liveness analysis end with exactly the variables that are live. -/

namespace Panopticon.Proofs.LiveVariables
open Library Panopticon.Liveness Proofs.Liveness Proofs.Dominator AdjacencyList

variable {ε : Type} {cfg : ControlFlowGraph} {table : Table} {liveout : LiveOut}

/-- Some way out of `b` leads to a read of `x`, with no write to `x` on it. -/
inductive Live (cfg : ControlFlowGraph) (x : String) : Nat → Prop
  | next {b m : Nat} : cfg.Adjacent b m → Exposes (accessesAt cfg m) x → Live cfg x b
  | later {b m : Nat} : cfg.Adjacent b m → ¬ Writes (accessesAt cfg m) x → Live cfg x m → Live cfg x b

theorem resolved_iff {v : Nat} : resolved cfg v = true ↔ PhiPlacement.Block cfg v := by
  unfold resolved PhiPlacement.Block
  cases cfg.vertexLabel v with
  | none => simp
  | some lb => cases lb <;> simp

/-- `x` flows from the start of `m` into its predecessors. -/
def Flows (cfg : ControlFlowGraph) (liveout : LiveOut) (x : String) (m : Nat) : Prop :=
  Exposes (accessesAt cfg m) x ∨
    (resolved cfg m ∧ ¬ Writes (accessesAt cfg m) x ∧ x ∈ liveout[m]?.getD ∅)

/-- The sets of all vertices there are. -/
structure Scanned (cfg : ControlFlowGraph) (ord : List Nat) (table : Table) : Prop where
  present : ∀ v ∈ ord, (table[v]?).isSome
  exact : ∀ (v : Nat) sets, table[v]? = some sets → Exact cfg v sets

def Covers (cfg : ControlFlowGraph) (ord : List Nat) (liveout : LiveOut) : Prop :=
  ∀ v ∈ ord, resolved cfg v → (liveout[v]?).isSome

section Round
variable {ord : List Nat} (valid : cfg.Consistent) (closed : ∀ u ∈ ord, ∀ v, cfg.Adjacent u v → v ∈ ord)
  (scanned : Scanned cfg ord table) (covers : Covers cfg ord liveout)
include scanned covers

private theorem flowEdge_spec {e u m : Nat} (stored : cfg.edges[e]? = some (u, m)) (inside : m ∈ ord) (s : Names) :
    ∃ s', (flowEdge cfg table liveout s e : Outcome ε Names) = .returns s' ∧
      ∀ x, x ∈ s' ↔ x ∈ s ∨ Flows cfg liveout x m := by
  obtain ⟨sets, found⟩ := Option.isSome_iff_exists.mp (scanned.present m inside)
  have target : cfg.target e = some m := by simp [target, stored]
  have exact := scanned.exact m sets found
  cases block : resolved cfg m with
  | false =>
    refine ⟨s.insertMany sets.uevar.toList, ?_, fun x => ?_⟩
    · simp [flowEdge, target, found, block, Outcome.unwrap]
    · simp [Flows, block, (exact x).1]
  | true =>
    obtain ⟨live, known⟩ := Option.isSome_iff_exists.mp (covers m inside block)
    refine ⟨(s.insertMany sets.uevar.toList).insertMany (live.toList.filter fun x => !sets.varkill.contains x), ?_, fun x => ?_⟩
    · simp [flowEdge, target, found, block, known, Outcome.unwrap]
    · have unwritten : sets.varkill.contains x = false ↔ ¬ Writes (accessesAt cfg m) x := by
        rw [← (exact x).2, ← Bool.not_eq_true, Std.ExtTreeSet.contains_iff_mem]
      simp [Flows, block, known, (exact x).1, unwritten, or_assoc, and_comm]

include valid closed

private theorem flowVertex_spec {b : Nat} (inside : b ∈ ord) (labelled : (cfg.vertexLabel b).isSome) (block : resolved cfg b)
    (next : LiveOut × Bool) :
    ∃ s old, liveout[b]? = some old ∧
      (flowVertex cfg table liveout next b : Outcome ε _) = .returns (next.1.insert b s, next.2 && old == s) ∧
      ∀ x, x ∈ s ↔ ∃ m, cfg.Adjacent b m ∧ Flows cfg liveout x m := by
  obtain ⟨out, list⟩ := Option.isSome_iff_exists.mp ((valid.outKeys b).mpr labelled)
  obtain ⟨old, known⟩ := Option.isSome_iff_exists.mp (covers b inside block)
  have members := (valid.outList b out list).2
  obtain ⟨s, folded, -, spec⟩ := Outcome.fold_returns (f := flowEdge (ε := ε) cfg table liveout)
    (fun rest s => rest ⊆ out ∧ ∀ x, (x ∈ s ∨ ∃ e ∈ rest, ∃ m, cfg.edges[e]? = some (b, m) ∧ Flows cfg liveout x m) ↔
      ∃ m, cfg.Adjacent b m ∧ Flows cfg liveout x m)
    (fun e rest s given => by
      obtain ⟨subset, spec⟩ := given
      obtain ⟨m, stored⟩ := (members e).mp (subset List.mem_cons_self)
      obtain ⟨s', flowed, members'⟩ := flowEdge_spec (ε := ε) scanned covers stored (closed b inside m ⟨e, stored⟩) s
      refine ⟨s', flowed, List.Subset.trans (List.subset_cons_self _ _) subset, fun x => ?_⟩
      rw [← spec x, members']
      simp only [List.mem_cons, exists_eq_or_imp, stored, Option.some.injEq, Prod.mk.injEq, true_and, exists_eq_left']
      tauto)
    out ∅ ⟨List.Subset.refl _, fun x => by
      simp only [Std.ExtTreeSet.not_mem_empty, false_or]
      constructor
      · intro holds
        obtain ⟨e, _, m, stored, flows⟩ := holds
        exact ⟨m, ⟨e, stored⟩, flows⟩
      · intro holds
        obtain ⟨m, ⟨e, stored⟩, flows⟩ := holds
        exact ⟨e, (members e).mpr ⟨m, stored⟩, m, stored, flows⟩⟩
  refine ⟨s, old, known, ?_, fun x => ?_⟩
  · simp [flowVertex, block, outgoing, list, Outcome.unwrap, folded, known]
  · rw [← spec x]
    simp

end Round

section Rounds
variable {ord : List Nat} (valid : cfg.Consistent) (closed : ∀ u ∈ ord, ∀ v, cfg.Adjacent u v → v ∈ ord)
  (labelled : ∀ v ∈ ord, (cfg.vertexLabel v).isSome) (scanned : Scanned cfg ord table)

/-- What the sets of a round are, all of them blocks. -/
def Computes (cfg : ControlFlowGraph) (ord : List Nat) (liveout new : LiveOut) : Prop :=
  ∀ b ∈ ord, resolved cfg b → ∃ s, new[b]? = some s ∧ ∀ x, x ∈ s ↔ ∃ m, cfg.Adjacent b m ∧ Flows cfg liveout x m

include valid closed labelled scanned in
private theorem flowRound_spec (covers : Covers cfg ord liveout) : ∃ new flag,
    (flowRound cfg table ord (liveout, false) : Outcome ε _) = .returns (some (new, flag)) ∧ Computes cfg ord liveout new ∧
      (flag = true ↔ ∀ b ∈ ord, resolved cfg b → new[b]? = liveout[b]?) := by
  obtain ⟨⟨new, flag⟩, folded, done, split, computed, same⟩ := Outcome.fold_returns
    (f := flowVertex (ε := ε) cfg table liveout)
    (fun rest state => ∃ done, ord = done ++ rest ∧
      (∀ b ∈ done, resolved cfg b → ∃ s, state.1[b]? = some s ∧ ∀ x, x ∈ s ↔ ∃ m, cfg.Adjacent b m ∧ Flows cfg liveout x m) ∧
      (state.2 = true ↔ ∀ b ∈ done, resolved cfg b → state.1[b]? = liveout[b]?))
    (fun b rest state given => by
      obtain ⟨done, split, computed, same⟩ := given
      have inside : b ∈ ord := by simp [split]
      cases block : resolved cfg b with
      | false =>
        refine ⟨state, by simp [flowVertex, block], done ++ [b], by simp [split], ?_, ?_⟩
        · intro c member
          rcases List.mem_append.mp member with member | member
          · exact computed c member
          · rw [List.mem_singleton.mp member, block]
            simp
        · rw [same]
          simp [or_imp, forall_and, block]
      | true =>
        obtain ⟨s, old, known, flowed, spec⟩ :=
          flowVertex_spec (ε := ε) valid closed scanned covers inside (labelled b inside) block state
        have entries : ∀ c, (state.1.insert b s)[c]? = if b = c then some s else state.1[c]? := by
          intro c
          simp only [Std.ExtTreeMap.getElem?_insert, Nat.compare_eq_eq]
        refine ⟨_, flowed, done ++ [b], by simp [split], ?_, ?_⟩
        · intro c member block'
          rw [entries]
          split
          · next here => exact ⟨s, rfl, here ▸ spec⟩
          · next other =>
            rcases List.mem_append.mp member with member | member
            · exact computed c member block'
            · exact absurd (List.mem_singleton.mp member).symm other
        · -- a block listed twice gets the same set twice
          have again : b ∈ done → state.1[b]? = some s := by
            intro member
            obtain ⟨s', found, spec'⟩ := computed b member block
            rw [found]
            exact congrArg some (Std.ExtTreeSet.ext_mem fun x => (spec' x).trans (spec x).symm)
          simp only [Bool.and_eq_true, same, beq_iff_eq, entries]
          constructor
          · intro holds c member block'
            obtain ⟨before, equal⟩ := holds
            split
            · next here => rw [← here, known, equal]
            · next other =>
              rcases List.mem_append.mp member with member | member
              · exact before c member block'
              · exact absurd (List.mem_singleton.mp member).symm other
          · intro all
            have here := all b (by simp) block
            rw [if_pos rfl, known] at here
            refine ⟨fun c member block' => ?_, (Option.some.inj here).symm⟩
            by_cases equal : b = c
            · rw [← equal, again (equal ▸ member), known, here]
            · simpa [equal] using all c (List.mem_append_left _ member) block')
    ord (∅, true) ⟨[], rfl, by simp, by simp⟩
  rw [List.append_nil] at split
  subst done
  exact ⟨new, flag, by simp [flowRound, folded], computed, same⟩

end Rounds

theorem nodup_toList (set : Names) : set.toList.Nodup :=
  Std.ExtTreeSet.distinct_toList.imp fun {a b} other same => other (by simp [same])

theorem size_le {set : Names} {names : List String} (inside : ∀ x ∈ set, x ∈ names) : set.size ≤ names.length := by
  rw [← Std.ExtTreeSet.length_toList]
  refine (List.subperm_of_subset (nodup_toList set) fun x member => ?_).length_le
  exact inside x (by simpa using member)

private theorem size_lt {small large : Names} (inside : ∀ x ∈ small, x ∈ large) (other : small ≠ large) : small.size < large.size := by
  have subset : small.toList ⊆ large.toList := fun x member => by simpa using inside x (by simpa using member)
  have subperm := List.subperm_of_subset (nodup_toList small) subset
  rw [← Std.ExtTreeSet.length_toList, ← Std.ExtTreeSet.length_toList]
  refine lt_of_le_of_ne subperm.length_le fun same => other ?_
  refine Std.ExtTreeSet.ext_mem fun x => ⟨inside x, fun member => ?_⟩
  have perm := subperm.perm_of_length_le (Nat.le_of_eq same.symm)
  simpa using perm.mem_iff.mpr (by simpa using member)

section Analysis
variable {ord : List Nat} (valid : cfg.Consistent) (closed : ∀ u ∈ ord, ∀ v, cfg.Adjacent u v → v ∈ ord)
  (labelled : ∀ v ∈ ord, (cfg.vertexLabel v).isSome) (scanned : Scanned cfg ord table)

def liveAt (liveout : LiveOut) (b : Nat) : Names := liveout[b]?.getD ∅

def entries (cfg : ControlFlowGraph) (ord : List Nat) (liveout : LiveOut) : Nat :=
  ((ord.filter (resolved cfg)).map fun b => (liveAt liveout b).size).sum

def names (table : Table) : List String := table.toList.flatMap fun entry => entry.2.uevar.toList

/-- What holds before each round. -/
structure Rounds (cfg : ControlFlowGraph) (ord : List Nat) (table : Table) (turn : Nat) (state : LiveOut × Bool) : Prop where
  covers : Covers cfg ord state.1
  sound : ∀ b ∈ ord, resolved cfg b → ∀ x ∈ liveAt state.1 b, Live cfg x b ∧ x ∈ names table
  grows : ∀ b ∈ ord, resolved cfg b → ∀ x ∈ liveAt state.1 b, ∃ m, cfg.Adjacent b m ∧ Flows cfg state.1 x m
  fixed : state.2 = true → ∀ b ∈ ord, resolved cfg b →
    ∀ x, (∃ m, cfg.Adjacent b m ∧ Flows cfg state.1 x m) → x ∈ liveAt state.1 b
  turns : state.2 = false → turn ≤ entries cfg ord state.1

theorem Flows.mono {new : LiveOut} {x : String} {m : Nat} (flows : Flows cfg liveout x m)
    (grows : resolved cfg m → x ∈ liveAt liveout m → x ∈ liveAt new m) : Flows cfg new x m := by
  rcases flows with exposed | ⟨block, unwritten, member⟩
  · exact .inl exposed
  · exact .inr ⟨block, unwritten, grows block member⟩

theorem Rounds.entries_le {turn : Nat} {state : LiveOut × Bool} (rounds : Rounds cfg ord table turn state) :
    entries cfg ord state.1 ≤ ord.length * (names table).length := by
  have each : ∀ size ∈ (ord.filter (resolved cfg)).map fun b => (liveAt state.1 b).size, size ≤ (names table).length := by
    intro size member
    obtain ⟨b, inside, rfl⟩ := List.mem_map.mp member
    obtain ⟨inside, block⟩ := List.mem_filter.mp inside
    exact size_le fun x member => (rounds.sound b inside block x member).2
  have total := List.sum_le_card_nsmul _ _ each
  rw [List.length_map, smul_eq_mul] at total
  exact Nat.le_trans total (Nat.mul_le_mul_right _ (List.length_filter_le _ _))

include valid closed labelled scanned

theorem Rounds.next {turn : Nat} {state : LiveOut × Bool} (rounds : Rounds cfg ord table turn state) (going : state.2 = false) :
    ∃ next, (flowRound cfg table ord state : Outcome ε _) = .returns (some next) ∧ Rounds cfg ord table (turn + 1) next := by
  obtain ⟨live, flag⟩ := state
  simp only at going
  subst flag
  obtain ⟨new, flag, returned, computes, stable⟩ := flowRound_spec (ε := ε) valid closed labelled scanned rounds.covers
  have members : ∀ b ∈ ord, resolved cfg b → ∀ x, x ∈ liveAt new b ↔ ∃ m, cfg.Adjacent b m ∧ Flows cfg live x m := by
    intro b inside block x
    obtain ⟨s, found, spec⟩ := computes b inside block
    rw [liveAt, found, Option.getD_some, spec]
  have grows : ∀ b ∈ ord, resolved cfg b → ∀ x ∈ liveAt live b, x ∈ liveAt new b :=
    fun b inside block x member => (members b inside block x).mpr (rounds.grows b inside block x member)
  have flows : ∀ {b m : Nat} {x : String}, b ∈ ord → cfg.Adjacent b m → Flows cfg live x m → Flows cfg new x m :=
    fun inside edge flow => flow.mono fun block member => grows _ (closed _ inside _ edge) block _ member
  refine ⟨(new, flag), returned, ?_, ?_, ?_, ?_, ?_⟩
  · intro b inside block
    obtain ⟨s, found, -⟩ := computes b inside block
    simp [found]
  · intro b inside block x member
    obtain ⟨m, edge, exposed | ⟨block', unwritten, later⟩⟩ := (members b inside block x).mp member
    · refine ⟨.next edge exposed, ?_⟩
      obtain ⟨sets, found⟩ := Option.isSome_iff_exists.mp (scanned.present m (closed b inside m edge))
      refine List.mem_flatMap.mpr ⟨(m, sets), Std.ExtTreeMap.mem_toList_iff_getElem?_eq_some.mpr found, ?_⟩
      simpa using ((scanned.exact m sets found) x).1.mpr exposed
    · obtain ⟨live, listed⟩ := rounds.sound m (closed b inside m edge) block' x later
      exact ⟨.later edge unwritten live, listed⟩
  · intro b inside block x member
    obtain ⟨m, edge, flow⟩ := (members b inside block x).mp member
    exact ⟨m, edge, flows inside edge flow⟩
  · intro same b inside block x holds
    obtain ⟨m, edge, flow⟩ := holds
    refine (members b inside block x).mpr ⟨m, edge, flow.mono fun block' member => ?_⟩
    rw [liveAt, ← stable.mp same m (closed b inside m edge) block']
    exact member
  · intro changed
    have before : turn ≤ entries cfg ord live := rounds.turns rfl
    suffices more : entries cfg ord live < entries cfg ord new from Nat.lt_of_le_of_lt before more
    have differs : ∃ b ∈ ord, resolved cfg b ∧ new[b]? ≠ live[b]? := by
      by_contra none
      simp only [not_exists, not_and, ne_eq, not_not] at none
      have same := stable.mpr none
      rw [same] at changed
      cases changed
    obtain ⟨b, inside, block, other⟩ := differs
    apply List.sum_lt_sum
    · intro c member
      obtain ⟨inside, block⟩ := List.mem_filter.mp member
      rw [← Std.ExtTreeSet.length_toList (t := liveAt new c)]
      exact size_le fun x member => by simpa using grows c inside block x member
    · refine ⟨b, List.mem_filter.mpr ⟨inside, block⟩, size_lt (grows b inside block) fun equal => other ?_⟩
      obtain ⟨s, found, -⟩ := computes b inside block
      obtain ⟨old, known⟩ := Option.isSome_iff_exists.mp (rounds.covers b inside block)
      rw [liveAt, liveAt, found, known] at equal
      rw [found, known]
      exact congrArg some equal.symm

end Analysis

theorem getElem?_initial (cfg : ControlFlowGraph) (ord : List Nat) (v : Nat) :
    (initial cfg ord)[v]? = if v ∈ ord ∧ resolved cfg v then some ∅ else none := by
  suffices general : ∀ before : LiveOut,
      (ord.foldl (fun liveout vx => if resolved cfg vx then liveout.insert vx ∅ else liveout) before)[v]? =
        if v ∈ ord ∧ resolved cfg v then some ∅ else before[v]? by
    simpa [Panopticon.Liveness.initial] using general ∅
  induction ord with
  | nil => simp
  | cons w ord ih =>
    intro before
    rw [List.foldl_cons, ih]
    by_cases later : v ∈ ord ∧ resolved cfg v
    · simp [later]
    · cases block : resolved cfg w with
      | false =>
        have other : resolved cfg v → v ≠ w := fun here same => by
          rw [same, block] at here
          cases here
        simp only [later, List.mem_cons, Bool.false_eq_true, ite_false]
        split
        · next member => exact absurd ⟨member.1.resolve_left (other member.2), member.2⟩ later
        · rfl
      | true =>
        simp only [later, List.mem_cons, ite_true, ite_false, Std.ExtTreeMap.getElem?_insert, Nat.compare_eq_eq]
        by_cases same : w = v
        · subst w
          simp [block]
        · have apart : ¬ ((v = w ∨ v ∈ ord) ∧ resolved cfg v = true) :=
            fun member => later ⟨member.1.resolve_left (Ne.symm same), member.2⟩
          simp [same, apart]

theorem Rounds.initial (cfg : ControlFlowGraph) (ord : List Nat) (table : Table) :
    Rounds cfg ord table 0 (initial cfg ord, false) := by
  have empty : ∀ b ∈ ord, resolved cfg b → liveAt (Panopticon.Liveness.initial cfg ord) b = ∅ := by
    intro b inside block
    rw [liveAt, getElem?_initial, if_pos ⟨inside, block⟩]
    rfl
  refine ⟨?_, ?_, ?_, ?_, fun _ => Nat.zero_le _⟩
  · intro b inside block
    rw [getElem?_initial, if_pos ⟨inside, block⟩]
    rfl
  · intro b inside block x member
    simp [empty b inside block] at member
  · intro b inside block x member
    simp [empty b inside block] at member
  · intro flag
    cases flag

theorem Rounds.complete {ord : List Nat} {turn : Nat} {live : LiveOut} (rounds : Rounds cfg ord table turn (live, true))
    (closed : ∀ u ∈ ord, ∀ v, cfg.Adjacent u v → v ∈ ord) (ends : ∀ u v, cfg.Adjacent u v → resolved cfg u)
    {x : String} {b : Nat} (lives : Live cfg x b) (inside : b ∈ ord) : x ∈ liveAt live b := by
  induction lives with
  | next edge exposed => exact rounds.fixed rfl _ inside (ends _ _ edge) x ⟨_, edge, .inl exposed⟩
  | @later b m edge unwritten lives ih =>
    have block : resolved cfg m := by
      cases lives with
      | next edge _ => exact ends _ _ edge
      | later edge _ _ => exact ends _ _ edge
    exact rounds.fixed rfl _ inside (ends _ _ edge) x ⟨m, edge, .inr ⟨block, unwritten, ih (closed b inside m edge)⟩⟩

private theorem livenessSets_returns {f : Function} (valid : f.cflowGraph.Consistent) {fuel : Nat} {ord : List Nat}
    (collected : (f.postorder fuel : Outcome ε _) = .returns ord) (labelled : ∀ v ∈ ord, (f.cflowGraph.vertexLabel v).isSome) :
    ∃ table, (livenessSets f fuel : Outcome ε _) = .returns table := by
  obtain ⟨table, folded, -⟩ := Outcome.fold_returns (f := scanVertex (ε := ε) f.cflowGraph)
    (fun rest _ => ∀ v ∈ rest, (f.cflowGraph.vertexLabel v).isSome)
    (fun v rest state present => by
      obtain ⟨out, list⟩ := Option.isSome_iff_exists.mp ((valid.outKeys v).mpr (present v List.mem_cons_self))
      have scanned : ∃ next, (scanVertex f.cflowGraph state v : Outcome ε _) = .returns next := by
        simp [scanVertex, outgoing, list, Outcome.unwrap]
      obtain ⟨next, scanned⟩ := scanned
      exact ⟨next, scanned, fun w member => present w (List.mem_cons_of_mem _ member)⟩)
    ord ∅ labelled
  exact ⟨table, by simp [livenessSets, collected, folded]⟩

theorem liveness_exact {f : Function} (valid : f.cflowGraph.Consistent) (entry : (f.cflowGraph.vertexLabel f.entryPoint).isSome)
    (ends : ∀ u v, f.cflowGraph.Adjacent u v → PhiPlacement.Block f.cflowGraph u) :
    ∃ enough, ∀ fuel, enough ≤ fuel → ∃ live, (liveness f fuel : Outcome ε _) = .returns live ∧
      ∀ b, PhiPlacement.Block f.cflowGraph b → Reachable f.cflowGraph.Adjacent f.entryPoint b →
        ∃ names, live[b]? = some names ∧ ∀ x, x ∈ names ↔ Live f.cflowGraph x b := by
  obtain ⟨ord, collects⟩ := DominatorTotal.exists_collectPostorder (ε := ε) valid entry
  have first := collects _ (Nat.lt_succ_self _)
  have listed := (DominatorTotal.collectPostorder_exact valid first).1
  have closed : ∀ u ∈ ord, ∀ v, f.cflowGraph.Adjacent u v → v ∈ ord :=
    fun u inside v edge => (listed v).mpr (((listed u).mp inside).step edge)
  have labelled : ∀ v ∈ ord, (f.cflowGraph.vertexLabel v).isSome :=
    fun v inside => labelled_of_reachable valid entry ((listed v).mp inside)
  obtain ⟨table, computed⟩ := livenessSets_returns (ε := ε) valid first labelled
  have scanned : Scanned f.cflowGraph ord table := by
    obtain ⟨order, collected, exact, present⟩ := livenessSets_exact computed
    rw [Function.postorder, first] at collected
    cases collected
    exact ⟨present, fun v sets found => (exact v sets found).2⟩
  refine ⟨max (2 * f.cflowGraph.numVertices + 1 + 1) (ord.length * (names table).length + 1 + 1), fun fuel large => ?_⟩
  have collected : (f.postorder fuel : Outcome ε _) = .returns ord := collects fuel (by omega)
  have sets : (livenessSets f fuel : Outcome ε _) = .returns table := by
    rw [← computed, livenessSets, livenessSets, collected, show f.postorder _ = _ from first]
  obtain ⟨⟨live, flag⟩, finished, turn, rounds, stopped⟩ := Outcome.repeated_returns
    (fun _ => flowRound (ε := ε) f.cflowGraph table ord) (ord.length * (names table).length + 1)
    (fun turn state => Rounds f.cflowGraph ord table turn state)
    (fun turn state rounds => by
      cases going : state.2 with
      | true => exact .inl (by simp [flowRound, going])
      | false =>
        obtain ⟨next, returned, rounds'⟩ := rounds.next (ε := ε) valid closed labelled scanned going
        have below := Nat.le_trans (rounds.turns going) rounds.entries_le
        exact .inr ⟨next, returned, rounds', by omega⟩)
    fuel _ (.initial f.cflowGraph ord table) (Nat.zero_le _) (by omega)
  have fixpoint : flag = true := by
    cases flag with
    | true => rfl
    | false =>
      obtain ⟨next, returned, -⟩ := rounds.next (ε := ε) valid closed labelled scanned rfl
      rw [returned] at stopped
      cases stopped
  subst flag
  refine ⟨live, by simp [liveness, sets, collected, finished], ?_⟩
  intro b block reachable
  have inside := (listed b).mpr reachable
  obtain ⟨names, found⟩ := Option.isSome_iff_exists.mp (rounds.covers b inside (resolved_iff.mpr block))
  have same : liveAt live b = names := by
    rw [liveAt, show live[b]? = _ from found]
    rfl
  refine ⟨names, found, fun x => ⟨fun member => ?_, fun lives => ?_⟩⟩
  · exact (rounds.sound b inside (resolved_iff.mpr block) x (same ▸ member)).1
  · exact same ▸ rounds.complete closed (fun u v edge => resolved_iff.mpr (ends u v edge)) lives inside

/-- A block that counts a variable down in a loop of its own and then jumps to where another one points. -/
def countdown : Function where
  name := "f"
  aliases := []
  uuid := 0
  cflowGraph := .ofLists
    [.resolved (.fromVec [⟨⟨0, 1⟩, "dec", [.var "x" none 0 8], [⟨.var "x" none 8, .subtract (.var "x" none 0 8) (.constant 1 8)⟩], []⟩]),
      .unresolved (.var "r" none 0 8)]
    [(.predicate (.var "x" none 0 8) true, 0, 0), (.always, 0, 1)]
  entryPoint := 0
  region := "ram"
  size := 0
  kind := .regular

theorem countdown_liveness : ∃ enough, ∀ fuel, enough ≤ fuel → ∃ live, (liveness countdown fuel : Outcome Empty _) = .returns live ∧
    ∀ b, PhiPlacement.Block countdown.cflowGraph b → Reachable countdown.cflowGraph.Adjacent countdown.entryPoint b →
      ∃ names, live[b]? = some names ∧ ∀ x, x ∈ names ↔ Live countdown.cflowGraph x b := by
  refine liveness_exact (.ofLists _ _) (by decide) ?_
  have all : countdown.cflowGraph.edges.toList.all (fun entry => resolved countdown.cflowGraph entry.2.1) = true := by
    decide
  simp only [List.all_eq_true, Prod.forall, Std.ExtTreeMap.mem_toList_iff_getElem?_eq_some] at all
  intro u v holds
  obtain ⟨e, stored⟩ := holds
  exact resolved_iff.mp (all e u v stored)

end Panopticon.Proofs.LiveVariables
