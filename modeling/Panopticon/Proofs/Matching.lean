import Panopticon.Disassembler
import Panopticon.Library.Prefixes
import Panopticon.Proofs.Store

/-! The graph of a disassembler is a tree of rule sequences, and the search through it finds what matching every
sequence on its own finds. -/

namespace Panopticon.Disassembly
open Library

section Tree

variable {n : Nat} {ε : Type} {g : AdjacencyList Unit (Rule n)} {words : List (List (Rule n))}

/-- The vertices of the graph spell these rule sequences. -/
structure Spells (g : AdjacencyList Unit (Rule n)) (words : List (List (Rule n))) : Prop where
  tree : Prefixes words
  consistent : g.Consistent
  stored : ∃ arcs, g.Lists (words.map fun _ => ()) arcs ∧ arcs.length + 1 = words.length ∧
    ∀ e r u v, arcs[e]? = some (r, u, v) → v = e + 1 ∧ ∃ p, words[u]? = some p ∧ words[v]? = some (p ++ [r])

theorem Spells.new : Spells (AdjacencyList.new.addVertex ()).1 [([] : List (Rule n))] := by
  refine ⟨.single, AdjacencyList.Consistent.new.addVertex (), [], AdjacencyList.Lists.new.addVertex (), rfl, ?_⟩
  simp

theorem Spells.vertex (spells : Spells g words) {v : Nat} {p : List (Rule n)} (here : words[v]? = some p) :
    g.vertexLabel v = some () := by
  obtain ⟨arcs, lists, _⟩ := spells.stored
  rw [lists.vertexLabel, List.getElem?_map, here]
  rfl

theorem Spells.arc (spells : Spells g words) {e u v : Nat} (found : g.edges[e]? = some (u, v)) :
    v = e + 1 ∧ ∃ p r, words[u]? = some p ∧ words[v]? = some (p ++ [r]) ∧ g.edgeLabel e = some r := by
  obtain ⟨arcs, lists, _, known⟩ := spells.stored
  rw [lists.ends, Option.map_eq_some_iff] at found
  obtain ⟨arc, found, ends⟩ := found
  obtain ⟨r, u', v'⟩ := arc
  obtain ⟨rfl, rfl⟩ := Prod.mk.inj ends
  obtain ⟨next, p, source, target⟩ := known e r u' v' found
  refine ⟨next, p, r, source, target, ?_⟩
  have label := lists.guards e
  rw [found] at label
  exact label

theorem Spells.entered (spells : Spells g words) {v : Nat} {p : List (Rule n)} {r : Rule n} (here : words[v]? = some (p ++ [r])) :
    ∃ e u, g.edges[e]? = some (u, v) ∧ words[u]? = some p ∧ g.edgeLabel e = some r := by
  obtain ⟨arcs, lists, length, known⟩ := spells.stored
  obtain ⟨e, rfl⟩ : ∃ e, v = e + 1 := by
    cases v with
    | zero =>
      rw [spells.tree.root] at here
      simp at here
    | succ e => exact ⟨e, rfl⟩
  have inside : e < arcs.length := by
    obtain ⟨bound, _⟩ := List.getElem?_eq_some_iff.mp here
    omega
  obtain ⟨arc, found⟩ : ∃ arc, arcs[e]? = some arc := ⟨_, List.getElem?_eq_getElem inside⟩
  obtain ⟨r', u, v⟩ := arc
  obtain ⟨rfl, p', source, target⟩ := known e r' u v found
  rw [here] at target
  obtain ⟨rfl, same⟩ := List.append_inj' (Option.some.inj target) rfl
  obtain rfl := List.singleton_inj.mp same
  refine ⟨e, u, ?_, source, ?_⟩
  · rw [lists.ends, found]
    rfl
  · have label := lists.guards e
    rw [found] at label
    exact label

theorem Spells.place (spells : Spells g words) {u v : Nat} {p : List (Rule n)} (here : words[u]? = some p)
    (there : words[v]? = some p) : u = v :=
  (List.getElem?_inj (List.getElem?_eq_some_iff.mp here).1 spells.tree.nodup).mp (here.trans there.symm)

theorem Spells.outgoing (spells : Spells g words) {u : Nat} {p : List (Rule n)} (here : words[u]? = some p) :
    ∃ out, g.outgoing (ε := ε) u = .returns out ∧ out.Nodup ∧ ∀ e, e ∈ out ↔ ∃ v, g.edges[e]? = some (u, v) := by
  have present := (spells.consistent.outKeys u).mpr (by rw [spells.vertex here]; rfl)
  obtain ⟨out, found⟩ := Option.isSome_iff_exists.mp present
  obtain ⟨distinct, members⟩ := spells.consistent.outList u out found
  exact ⟨out, Outcome.unwrap_eq_returns.mpr found, distinct, members⟩

def Leads (g : AdjacencyList Unit (Rule n)) (r : Rule n) (out : List Nat) : Option Nat → Prop
  | some v => ∃ e ∈ out, ∃ u, g.edges[e]? = some (u, v) ∧ g.edgeLabel e = some r
  | none => ∀ e ∈ out, g.edgeLabel e ≠ some r

private theorem findRule_spec (spells : Spells g words) (r : Rule n) {out : List Nat} (known : ∀ e ∈ out, ∃ u v, g.edges[e]? = some (u, v)) :
    ∃ answer, Disassembler.findRule (ε := ε) g r out = .returns answer ∧ Leads g r out answer := by
  induction out with
  | nil => exact ⟨none, rfl, fun _ member => absurd member List.not_mem_nil⟩
  | cons e out ih =>
    rw [List.forall_mem_cons] at known
    obtain ⟨⟨u, v, found⟩, later⟩ := known
    obtain ⟨answer, rest, meaning⟩ := ih later
    obtain ⟨_, p, t, _, _, label⟩ := spells.arc found
    rw [Disassembler.findRule, label]
    dsimp only
    by_cases same : t = r
    · rw [if_pos same]
      have target : g.target e = some v := by rw [AdjacencyList.target, found]; rfl
      refine ⟨some v, by rw [target]; rfl, e, List.mem_cons_self, u, found, same ▸ label⟩
    · rw [if_neg same]
      refine ⟨answer, rest, ?_⟩
      cases answer with
      | some v =>
        obtain ⟨e', member, u', found', label'⟩ := meaning
        exact ⟨e', List.mem_cons_of_mem _ member, u', found', label'⟩
      | none =>
        refine List.forall_mem_cons.mpr ⟨?_, meaning⟩
        rw [label]
        exact fun equal => same (Option.some.inj equal)

private theorem addRule_spec (spells : Spells g words) {u : Nat} {p : List (Rule n)} (here : words[u]? = some p) (r : Rule n) :
    ∃ g' v more, Disassembler.addRule (ε := ε) (g, u) r = .returns (g', v) ∧ Spells g' (words ++ more) ∧
      (words ++ more)[v]? = some (p ++ [r]) ∧ ∀ q ∈ more, q = p ++ [r] := by
  obtain ⟨out, generated, distinct, members⟩ := spells.outgoing (ε := ε) here
  obtain ⟨answer, found, meaning⟩ := findRule_spec (ε := ε) spells r fun e member => ⟨u, (members e).mp member⟩
  rw [Disassembler.addRule, generated, Outcome.returns_bind, found, Outcome.returns_bind]
  cases answer with
  | some v =>
    obtain ⟨e, member, u', ends, label⟩ := meaning
    obtain ⟨v', ends'⟩ := (members e).mp member
    obtain ⟨rfl, rfl⟩ := Prod.mk.inj (Option.some.inj (ends.symm.trans ends'))
    obtain ⟨_, q, r', source, target, label'⟩ := spells.arc ends
    obtain rfl := Option.some.inj (here.symm.trans source)
    obtain rfl := Option.some.inj (label.symm.trans label')
    exact ⟨g, v, [], rfl, by rwa [List.append_nil], by rwa [List.append_nil], by simp⟩
  | none =>
    have fresh : p ++ [r] ∉ words := by
      intro member
      obtain ⟨v, known⟩ := List.mem_iff_getElem?.mp member
      obtain ⟨e, u', ends, source, label⟩ := spells.entered known
      exact meaning e ((members e).mpr ⟨v, spells.place source here ▸ ends⟩) label
    obtain ⟨arcs, lists, length, known⟩ := spells.stored
    have inside : u < words.length := (List.getElem?_eq_some_iff.mp here).1
    have number : g.nextVertex = words.length := lists.nextVertex.trans (List.length_map _)
    have labels : words.map (fun _ => ()) ++ [()] = (words ++ [p ++ [r]]).map fun _ => () := by simp
    have added : ((g.addVertex ()).1.addEdge r u words.length).1.Lists ((words ++ [p ++ [r]]).map fun _ => ())
        (arcs ++ [(r, u, words.length)]) := by
      rw [← labels]
      apply (lists.addVertex ()).addEdge r
      · simp only [List.length_append, List.length_map]
        omega
      · simp
    have last : (words ++ [p ++ [r]])[words.length]? = some (p ++ [r]) := by simp
    refine ⟨((g.addVertex ()).1.addEdge r u words.length).1, words.length, [p ++ [r]], by rw [← number]; rfl,
      ⟨spells.tree.concat (List.mem_of_getElem? here) fresh, (spells.consistent.addVertex ()).addEdge .., _, added, ?_, ?_⟩,
      last, by simp⟩
    · simp [length]
    · intro e r' u' v' found'
      by_cases old : e < arcs.length
      · rw [List.getElem?_append_left old] at found'
        obtain ⟨next, q, source, target⟩ := known e r' u' v' found'
        refine ⟨next, q, ?_, ?_⟩
        · rw [List.getElem?_append_left (List.getElem?_eq_some_iff.mp source).1, source]
        · rw [List.getElem?_append_left (List.getElem?_eq_some_iff.mp target).1, target]
      · have bound := (List.getElem?_eq_some_iff.mp found').1
        rw [List.length_append, List.length_singleton] at bound
        obtain rfl : e = arcs.length := by omega
        rw [List.getElem?_append_right le_rfl, Nat.sub_self] at found'
        obtain ⟨rfl, ends⟩ := Prod.mk.inj (Option.some.inj found')
        obtain ⟨rfl, rfl⟩ := Prod.mk.inj ends
        refine ⟨length.symm, p, ?_, last⟩
        rw [List.getElem?_append_left inside, here]

end Tree

section Add

variable {n : Nat} {Configuration ε : Type} {allowed : Rule n → Prop} {dis : Disassembler n Configuration}
  {words : List (List (Rule n))} {table : List (List (Rule n) × Action n Configuration)}

/-- The action of a sequence replaces an earlier one. -/
def record (table : List (List (Rule n) × Action n Configuration)) (rule : List (Rule n) × Action n Configuration) :
    List (List (Rule n) × Action n Configuration) := table.filter (fun other => other.1 ≠ rule.1) ++ [rule]

/-- The sequences that were added, each with its last action. -/
def latest (rules : List (List (Rule n) × Action n Configuration)) : List (List (Rule n) × Action n Configuration) :=
  rules.foldl record []

/-- The disassembler holds these sequences and actions. -/
structure Stores (allowed : Rule n → Prop) (dis : Disassembler n Configuration) (words : List (List (Rule n)))
    (table : List (List (Rule n) × Action n Configuration)) : Prop where
  start : dis.start = 0
  spells : Spells dis.graph words
  sequences : (table.map Prod.fst).Nodup
  known : ∀ (v : Nat) act, dis.ends[v]? = some act ↔ ∃ p, words[v]? = some p ∧ (p, act) ∈ table
  covered : ∀ rule ∈ table, rule.1 ∈ words
  rules : ∀ p ∈ words, ∀ r ∈ p, allowed r

theorem Stores.new (allowed : Rule n → Prop) : Stores allowed (Disassembler.new : Disassembler n Configuration) [[]] [] := by
  refine ⟨rfl, .new, List.nodup_nil, fun v act => ?_, by simp, by simp⟩
  simp [Disassembler.new]

private theorem fold_addRule (a : List (Rule n)) {g : AdjacencyList Unit (Rule n)} {u : Nat} {p : List (Rule n)} (spells : Spells g words)
    (here : words[u]? = some p) : ∃ g' v more, Outcome.fold (ε := ε) Disassembler.addRule (g, u) a = .returns (g', v) ∧
      Spells g' (words ++ more) ∧ (words ++ more)[v]? = some (p ++ a) ∧ ∀ q ∈ more, ∀ r ∈ q, r ∈ p ∨ r ∈ a := by
  induction a generalizing g u p words with
  | nil => exact ⟨g, u, [], rfl, by rwa [List.append_nil], by rwa [List.append_nil, List.append_nil], by simp⟩
  | cons r a ih =>
    obtain ⟨middle, w, first, added, spells, there, kept⟩ := addRule_spec (ε := ε) spells here r
    obtain ⟨g', v, more, finished, spells, last, rules⟩ := ih spells there
    refine ⟨g', v, first ++ more, ?_, by rwa [← List.append_assoc], ?_, ?_⟩
    · rw [Outcome.fold, added]
      exact finished
    · rw [← List.append_assoc, last, List.append_assoc, List.singleton_append]
    · intro q member t inside
      rw [List.mem_cons]
      rcases List.mem_append.mp member with member | member
      · rw [kept q member, List.mem_append, List.mem_singleton] at inside
        tauto
      · have source := rules q member t inside
        rw [List.mem_append, List.mem_singleton] at source
        tauto

theorem mem_record {rule other : List (Rule n) × Action n Configuration} :
    other ∈ record table rule ↔ other ∈ table ∧ other.1 ≠ rule.1 ∨ other = rule := by
  simp [record]

theorem Stores.add (stores : Stores allowed dis words table) {a : List (Rule n)} (filled : a ≠ [])
    (known : ∀ r ∈ a, allowed r) (b : Action n Configuration) :
    ∃ dis' more, dis.add (ε := ε) a b = .returns dis' ∧ Stores allowed dis' (words ++ more) (record table (a, b)) := by
  have root : words[dis.start]? = some [] := by rw [stores.start, stores.spells.tree.root]
  obtain ⟨g, v, more, followed, spells, last, rules⟩ := fold_addRule (ε := ε) a stores.spells root
  rw [List.nil_append] at last
  refine ⟨{ dis with graph := g, ends := dis.ends.insert v b }, more, ?_, stores.start, spells, ?_, ?_, ?_, ?_⟩
  · rw [Disassembler.add, if_neg filled, followed]
    rfl
  · rw [record, List.map_append, List.map_singleton]
    refine (stores.sequences.sublist (List.filter_sublist.map _)).append (List.nodup_singleton _) ?_
    simp
  · intro w act
    dsimp only
    rw [Std.ExtTreeMap.getElem?_insert]
    by_cases here : v = w
    · subst here
      rw [if_pos (by simp), last, Option.some.injEq]
      constructor
      · rintro rfl
        exact ⟨a, rfl, mem_record.mpr (.inr rfl)⟩
      · rintro ⟨p, same, member⟩
        obtain rfl := Option.some.inj same
        rcases mem_record.mp member with old | new
        · exact absurd rfl old.2
        · exact (Prod.mk.inj new).2.symm
    · rw [if_neg (by simpa using here), stores.known w act]
      constructor
      · rintro ⟨p, there, member⟩
        have kept : (words ++ more)[w]? = some p := by
          rw [List.getElem?_append_left (List.getElem?_eq_some_iff.mp there).1, there]
        refine ⟨p, kept, mem_record.mpr (.inl ⟨member, ?_⟩)⟩
        rintro rfl
        exact here (spells.place last kept)
      · rintro ⟨p, there, member⟩
        rcases mem_record.mp member with old | new
        · obtain ⟨w', there'⟩ := List.mem_iff_getElem?.mp (stores.covered _ old.1)
          have kept : (words ++ more)[w']? = some p := by
            rw [List.getElem?_append_left (List.getElem?_eq_some_iff.mp there').1, there']
          obtain rfl := spells.place there kept
          exact ⟨p, there', old.1⟩
        · obtain ⟨rfl, _⟩ := Prod.mk.inj new
          exact absurd (spells.place last there) here
  · intro rule member
    rw [List.mem_append]
    rcases mem_record.mp member with old | rfl
    · exact .inl (stores.covered rule old.1)
    · exact List.mem_append.mp (List.mem_of_getElem? last)
  · intro p member r inside
    rcases List.mem_append.mp member with member | member
    · exact stores.rules p member r inside
    · rcases rules p member r inside with absurd' | source
      · cases absurd'
      · exact known r source

theorem Stores.addAll (stores : Stores allowed dis words table) {rules : List (List (Rule n) × Action n Configuration)}
    (good : ∀ rule ∈ rules, rule.1 ≠ [] ∧ ∀ r ∈ rule.1, allowed r) :
    ∃ dis' words', dis.addAll (ε := ε) rules = .returns dis' ∧ Stores allowed dis' words' (rules.foldl record table) := by
  induction rules generalizing dis words table with
  | nil => exact ⟨dis, words, rfl, stores⟩
  | cons rule rules ih =>
    rw [List.forall_mem_cons] at good
    obtain ⟨middle, more, added, stores⟩ := stores.add (ε := ε) good.1.1 good.1.2 rule.2
    obtain ⟨dis', words', finished, stores⟩ := ih stores good.2
    refine ⟨dis', words', ?_, stores⟩
    rw [Disassembler.addAll, Outcome.fold, added]
    exact finished

end Add

section Find

variable {n : Nat} {Configuration ε : Type} {allowed : Rule n → Prop} {dis : Disassembler n Configuration}
  {words : List (List (Rule n))} {table : List (List (Rule n) × Action n Configuration)} {sub : Finder ε n Configuration}

/-- All the ways a sequence matches, given the ways its rules match. -/
def ways (matched : Rule n → Found n Configuration → List (Found n Configuration)) :
    List (Rule n) → Found n Configuration → List (Found n Configuration)
  | [], found => [found]
  | r :: rest, found => (matched r found).flatMap (ways matched rest)

def lastWays (matched : Rule n → Found n Configuration → List (Found n Configuration)) (p : List (Rule n))
    (found : Found n Configuration) : List (Found n Configuration) :=
  (p.getLast?).elim [] fun r => matched r found

variable {matched : Rule n → Found n Configuration → List (Found n Configuration)}

theorem ways_append (p q : List (Rule n)) (found : Found n Configuration) :
    ways matched (p ++ q) found = (ways matched p found).flatMap (ways matched q) := by
  induction p generalizing found with
  | nil => simp [ways]
  | cons t p ih =>
    rw [List.cons_append, ways, ways, List.flatMap_assoc]
    exact List.flatMap_congr fun found _ => ih found

private theorem ways_concat (p : List (Rule n)) (r : Rule n) (found : Found n Configuration) :
    ways matched (p ++ [r]) found = (ways matched p found).flatMap (lastWays matched (p ++ [r])) := by
  rw [ways_append]
  refine List.flatMap_congr fun found _ => ?_
  simp [ways, lastWays]

def place (words : List (List (Rule n))) (p : List (Rule n)) : Nat := words.idxOf p

theorem getElem?_place {p : List (Rule n)} (member : p ∈ words) : words[place words p]? = some p := by
  rw [place, List.getElem?_eq_getElem (List.idxOf_lt_length_iff.mpr member), List.getElem_idxOf]

theorem place_eq (distinct : words.Nodup) {v : Nat} {p : List (Rule n)} (here : words[v]? = some p) : place words p = v := by
  obtain ⟨inside, rfl⟩ := List.getElem?_eq_some_iff.mp here
  exact distinct.idxOf_getElem v inside

private theorem each_map {α β : Type} (f : α → β) (as : List α) : Outcome.each (ε := ε) (fun a => .returns (f a)) as = .returns (as.map f) := by
  induction as with
  | nil => rfl
  | cons a as ih => simp [Outcome.each, ih]

theorem each_flatten {α β : Type} {f : α → Outcome ε (List β)} {F : α → List β} {as : List α}
    (step : ∀ a ∈ as, ∃ next, f a = .returns next ∧ next.Perm (F a)) :
    ∃ all, Outcome.each f as = .returns all ∧ all.flatten.Perm (as.flatMap F) := by
  induction as with
  | nil => exact ⟨[], rfl, .nil⟩
  | cons a as ih =>
    rw [List.forall_mem_cons] at step
    obtain ⟨next, first, same⟩ := step.1
    obtain ⟨all, rest, later⟩ := ih step.2
    refine ⟨next :: all, by simp [Outcome.each, first, rest], ?_⟩
    rw [List.flatten_cons, List.flatMap_cons]
    exact same.append later

/-- The rules that occur match in these ways. -/
def Matches (allowed : Rule n → Prop) (sub : Finder ε n Configuration)
    (matched : Rule n → Found n Configuration → List (Found n Configuration)) : Prop :=
  ∀ r, allowed r → ∀ found, ∃ all, r.matches sub found = .returns all ∧ all.Perm (matched r found)

private theorem along_spec {e u v : Nat} {r : Rule n} (ends : dis.graph.edges[e]? = some (u, v)) (label : dis.graph.edgeLabel e = some r)
    {found : Found n Configuration} {all : List (Found n Configuration)} (known : r.matches sub found = .returns all) :
    dis.along sub found e = .returns (all.map (·, v)) := by
  have target : dis.graph.target e = some v := by
    rw [AdjacencyList.target, ends]
    rfl
  rw [Disassembler.along, label]
  dsimp only
  rw [known, Outcome.returns_bind, ← each_map, target]
  rfl

/-- The states behind a vertex are those behind its children. -/
def onward (words : List (List (Rule n))) (matched : Rule n → Found n Configuration → List (Found n Configuration))
    (state : Found n Configuration × Nat) : List (Found n Configuration × Nat) :=
  (continuations words (words[state.2]?.getD [])).flatMap fun q => (lastWays matched q state.1).map (·, place words q)

private theorem advance_spec (spells : Spells dis.graph words) (rules : ∀ p ∈ words, ∀ r ∈ p, allowed r)
    (known : Matches allowed sub matched) {u : Nat} {p : List (Rule n)} (here : words[u]? = some p) (found : Found n Configuration) :
    ∃ next, dis.advance sub (found, u) = .returns next ∧ next.Perm (onward words matched (found, u)) := by
  obtain ⟨out, generated, distinct, members⟩ := spells.outgoing (ε := ε) here
  let word (e : Nat) : List (Rule n) := (words[e + 1]?).getD []
  have child : ∀ e ∈ out, ∃ r, words[e + 1]? = some (p ++ [r]) ∧ dis.graph.edges[e]? = some (u, e + 1) ∧
      dis.graph.edgeLabel e = some r := by
    intro e member
    obtain ⟨v, ends⟩ := (members e).mp member
    obtain ⟨rfl, q, r, source, target, label⟩ := spells.arc ends
    obtain rfl := Option.some.inj (here.symm.trans source)
    exact ⟨r, target, ends, label⟩
  have same : (out.map word).Perm (continuations words p) := by
    have different : (out.map word).Nodup := by
      refine List.Nodup.map_on (fun e first e' second equal => ?_) distinct
      obtain ⟨r, target, _⟩ := child e first
      obtain ⟨r', target', _⟩ := child e' second
      simp only [word, target, target', Option.getD_some] at equal
      have place := spells.place target (target'.trans (congrArg some equal.symm))
      omega
    have different' : (continuations words p).Nodup := spells.tree.nodup.filter _
    refine (List.perm_ext_iff_of_nodup different different').mpr fun q => ?_
    rw [List.mem_map, mem_continuations]
    constructor
    · rintro ⟨e, member, rfl⟩
      obtain ⟨r, target, _⟩ := child e member
      simp only [word, target, Option.getD_some]
      exact ⟨List.mem_of_getElem? target, r, rfl⟩
    · rintro ⟨member, r, rfl⟩
      obtain ⟨v, there⟩ := List.mem_iff_getElem?.mp member
      obtain ⟨e, u', ends, source, _⟩ := spells.entered there
      obtain ⟨rfl, _⟩ := spells.arc ends
      refine ⟨e, (members e).mpr ⟨e + 1, spells.place source here ▸ ends⟩, ?_⟩
      simp only [word, there, Option.getD_some]
  have steps : ∀ e ∈ out, ∃ next, dis.along sub found e = .returns next ∧
      next.Perm ((lastWays matched (word e) found).map (·, place words (word e))) := by
    intro e member
    obtain ⟨r, target, ends, label⟩ := child e member
    obtain ⟨all, matching, equal⟩ := known r (rules _ (List.mem_of_getElem? target) r (by simp)) found
    refine ⟨_, along_spec ends label matching, ?_⟩
    simp only [word, target, Option.getD_some, lastWays, List.getLast?_append, List.getLast?_singleton, Option.some_or,
      Option.elim_some, place_eq spells.tree.nodup target]
    exact equal.map _
  obtain ⟨all, results, collected⟩ := each_flatten steps
  refine ⟨all.flatten, ?_, collected.trans ?_⟩
  · rw [Disassembler.advance, spells.vertex here]
    dsimp only
    rw [generated, Outcome.returns_bind, results]
    rfl
  · have equal := same.flatMap_right fun q => (lastWays matched q found).map (·, place words q)
    rw [List.flatMap_map] at equal
    simpa only [onward, here, Option.getD_some] using equal

def reached (words : List (List (Rule n))) (matched : Rule n → Found n Configuration → List (Found n Configuration))
    (initial : Found n Configuration) (k : Nat) : List (Found n Configuration × Nat) :=
  (level words k).flatMap fun p => (ways matched p initial).map (·, place words p)

private theorem reached_succ (tree : Prefixes words) (initial : Found n Configuration) (k : Nat) :
    ((reached words matched initial k).flatMap (onward words matched)).Perm (reached words matched initial (k + 1)) := by
  let behind (q : List (Rule n)) := (ways matched q initial).map (·, place words q)
  have each : (reached words matched initial k).flatMap (onward words matched) = (level words k).flatMap fun p =>
      (ways matched p initial).flatMap fun found => (continuations words p).flatMap fun q =>
        (lastWays matched q found).map (·, place words q) := by
    rw [reached, List.flatMap_assoc]
    refine List.flatMap_congr fun p member => ?_
    simp only [List.flatMap_map, onward, getElem?_place (mem_level.mp member).1, Option.getD_some]
  have swapped : ∀ p, ((ways matched p initial).flatMap fun found => (continuations words p).flatMap fun q =>
      (lastWays matched q found).map (·, place words q)).Perm ((continuations words p).flatMap behind) := by
    intro p
    apply (flatMap_swap_perm _ _ _).trans
    apply List.Perm.of_eq
    refine List.flatMap_congr fun q member => ?_
    obtain ⟨r, rfl⟩ := (mem_continuations.mp member).2
    simp only [behind]
    rw [ways_concat, List.map_flatMap]
  rw [each]
  apply (List.Perm.flatMap_left _ fun p _ => swapped p).trans
  rw [← List.flatMap_assoc]
  exact (tree.level_succ k).symm.flatMap_right behind

private theorem reached_all (tree : Prefixes words) {initial : Found n Configuration} {k : Nat}
    (stopped : reached words matched initial k = []) : ((List.range k).flatMap (reached words matched initial)).Perm
      (words.flatMap fun p => (ways matched p initial).map (·, place words p)) := by
  let behind (p : List (Rule n)) := (ways matched p initial).map (·, place words p)
  have longer : (words.filter fun p => !decide (p.length < k)).flatMap behind = [] := by
    rw [List.flatMap_eq_nil_iff]
    intro p member
    simp only [List.mem_filter, Bool.not_eq_true', decide_eq_false_iff_not, not_lt] at member
    have middle : p.take k ∈ level words k := by
      refine mem_level.mpr ⟨tree.mem_of_append _ (p.drop k) ?_, List.length_take_of_le member.2⟩
      rw [List.take_append_drop]
      exact member.1
    have nothing := List.map_eq_nil_iff.mp (List.flatMap_eq_nil_iff.mp stopped _ middle)
    simp only [behind]
    rw [List.map_eq_nil_iff, ← List.take_append_drop k p, ways_append, nothing, List.flatMap_nil]
  have split := (List.filter_append_perm (fun p : List (Rule n) => decide (p.length < k)) words).flatMap_right behind
  rw [List.flatMap_append, longer, List.append_nil] at split
  have levels := (Prefixes.levels_perm words k).flatMap_right behind
  rw [List.flatMap_assoc] at levels
  exact levels.trans split

theorem ending_eq (stores : Stores allowed dis words table) {p : List (Rule n)} (member : p ∈ words)
    (found : Found n Configuration) (act : Option (Action n Configuration))
    (known : ∀ b, act = some b ↔ (p, b) ∈ table) : dis.ending (found, place words p) = act.bind fun act => accept act found := by
  have same : dis.ends[place words p]? = act := by
    apply Option.ext
    intro b
    rw [stores.known, known]
    constructor
    · rintro ⟨q, here, listed⟩
      rwa [Option.some.inj ((getElem?_place member).symm.trans here)]
    · intro listed
      exact ⟨p, getElem?_place member, listed⟩
  rw [Disassembler.ending, same]

/-- What the sequences of a table find, each on its own. -/
def plainFind (matched : Rule n → Found n Configuration → List (Found n Configuration))
    (table : List (List (Rule n) × Action n Configuration)) (initial : Found n Configuration) : List (Found n Configuration) :=
  table.flatMap fun rule => (ways matched rule.1 initial).filterMap (accept rule.2)

private theorem endings_perm (stores : Stores allowed dis words table) (initial : Found n Configuration) :
    ((words.flatMap fun p => (ways matched p initial).map (·, place words p)).filterMap dis.ending).Perm
      (plainFind matched table initial) := by
  let known := table.map Prod.fst
  let result (p : List (Rule n)) := ((ways matched p initial).map (·, place words p)).filterMap dis.ending
  have inside : (words.filter (· ∈ known)).Perm known := by
    refine (List.perm_ext_iff_of_nodup (stores.spells.tree.nodup.filter _) stores.sequences).mpr fun p => ?_
    rw [List.mem_filter, decide_eq_true_eq, and_iff_right_iff_imp]
    intro member
    obtain ⟨rule, listed, rfl⟩ := List.mem_map.mp member
    exact stores.covered rule listed
  have outside : (words.filter fun p => !decide (p ∈ known)).flatMap result = [] := by
    rw [List.flatMap_eq_nil_iff]
    intro p member
    simp only [List.mem_filter, Bool.not_eq_true', decide_eq_false_iff_not] at member
    have none : ∀ found, dis.ending (found, place words p) = none := by
      intro found
      refine ending_eq stores member.1 found none fun b => ?_
      simp only [reduceCtorEq, false_iff]
      exact fun listed => member.2 (List.mem_map.mpr ⟨_, listed, rfl⟩)
    simp only [result, List.filterMap_map, List.filterMap_eq_nil_iff]
    exact fun found _ => none found
  have split := (List.filter_append_perm (fun p => decide (p ∈ known)) words).flatMap_right result
  rw [List.flatMap_append, outside, List.append_nil] at split
  rw [List.filterMap_flatMap]
  apply split.symm.trans
  apply (inside.flatMap_right result).trans
  apply List.Perm.of_eq
  rw [List.flatMap_map]
  refine List.flatMap_congr fun rule listed => ?_
  simp only [result, List.filterMap_map]
  refine List.filterMap_congr fun found _ => ?_
  refine (ending_eq stores (stores.covered rule listed) found (some rule.2) fun b => ?_).trans rfl
  rw [Option.some.injEq]
  constructor
  · rintro rfl
    exact listed
  · intro listed'
    exact congrArg Prod.snd (List.inj_on_of_nodup_map stores.sequences listed listed' rfl)

theorem find_spec (stores : Stores allowed dis words table) (known : Matches allowed sub matched) {fuel : Nat}
    (enough : words.length < fuel) (i : Cells) (initial : State n Configuration) :
    ∃ found, dis.find sub fuel i initial = .returns found ∧ found.Perm (plainFind matched table (initial, i)) := by
  let start : Found n Configuration := (initial, i)
  let invariant (k : Nat) (s : List (Found n Configuration × Nat) × List (Found n Configuration)) : Prop :=
    s.1.Perm (reached words matched start k) ∧
      s.2.Perm ((List.range k).flatMap fun j => (reached words matched start j).filterMap dis.ending)
  have progress : ∀ k s, invariant k s → dis.findTurn sub s = .returns none ∨
      ∃ next, dis.findTurn sub s = .returns (some next) ∧ invariant (k + 1) next ∧ k < words.length := by
    rintro k ⟨states, ret⟩ ⟨current, collected⟩
    rw [Disassembler.findTurn]
    by_cases done : states = []
    · exact .inl (if_pos done)
    · refine .inr ?_
      have steps : ∀ state ∈ states, ∃ next, dis.advance sub state = .returns next ∧ next.Perm (onward words matched state) := by
        rintro ⟨found, v⟩ member
        obtain ⟨p, below, there⟩ := List.mem_flatMap.mp (current.mem_iff.mp member)
        obtain ⟨found', _, same⟩ := List.mem_map.mp there
        obtain ⟨rfl, rfl⟩ := Prod.mk.inj same
        exact advance_spec stores.spells stores.rules known (getElem?_place (mem_level.mp below).1) found'
      obtain ⟨next, results, behind⟩ := each_flatten steps
      refine ⟨(next.flatten, ret ++ states.filterMap dis.ending), ?_, ⟨?_, ?_⟩, ?_⟩
      · rw [if_neg done]
        simp only [results, Outcome.returns_bind, Outcome.pure_eq]
      · exact (behind.trans (current.flatMap_right _)).trans (reached_succ stores.spells.tree start k)
      · rw [List.range_succ, List.flatMap_append, List.flatMap_singleton]
        exact collected.append (current.filterMap _)
      · obtain ⟨state, member⟩ := List.exists_mem_of_ne_nil states done
        obtain ⟨p, below, _⟩ := List.mem_flatMap.mp (current.mem_iff.mp member)
        rw [mem_level] at below
        exact below.2 ▸ stores.spells.tree.length_lt below.1
  have root : reached words matched start 0 = [(start, dis.start)] := by
    have only : level words 0 = [[]] := by
      have distinct := List.perm_ext_iff_of_nodup (stores.spells.tree.nodup.filter fun p => decide (p.length = 0))
        (List.nodup_singleton ([] : List (Rule n)))
      refine List.perm_singleton.mp (distinct.mpr fun p => ?_)
      have top := stores.spells.tree.mem_root
      rw [← level, mem_level, List.length_eq_zero_iff, List.mem_singleton, and_iff_right_iff_imp]
      rintro rfl
      exact top
    rw [reached, only, List.flatMap_singleton, ways, List.map_singleton, stores.start,
      place_eq stores.spells.tree.nodup stores.spells.tree.root]
  obtain ⟨⟨states, ret⟩, finished, last, ⟨current, collected⟩, stopped⟩ := Outcome.repeated_returns
    (fun _ => dis.findTurn sub) words.length invariant progress fuel ([(start, dis.start)], [])
    ⟨.of_eq root.symm, .refl _⟩ (Nat.zero_le _) (by omega)
  refine ⟨ret, ?_, collected.trans ?_⟩
  · rw [Disassembler.find, finished]
    rfl
  · have empty : states = [] := by
      by_contra left
      rw [Disassembler.findTurn, if_neg left] at stopped
      simp at stopped
    subst empty
    rw [← List.filterMap_flatMap]
    exact ((reached_all stores.spells.tree current.symm.eq_nil).filterMap _).trans (endings_perm stores start)

end Find

section Latest

variable {n : Nat} {Configuration : Type}

private theorem mem_latest {rules : List (List (Rule n) × Action n Configuration)} {p : List (Rule n)} {b : Action n Configuration} :
    (p, b) ∈ latest rules ↔ ∃ front back, rules = front ++ (p, b) :: back ∧ ∀ rule ∈ back, rule.1 ≠ p := by
  induction rules using List.reverseRecOn with
  | nil => simp [latest]
  | append_singleton rules last ih =>
    rw [latest, List.foldl_append, ← latest, List.foldl_cons, List.foldl_nil, mem_record, ih]
    constructor
    · rintro (⟨⟨front, back, rfl, later⟩, different⟩ | rfl)
      · refine ⟨front, back ++ [last], by simp, fun rule member => ?_⟩
        rcases List.mem_append.mp member with member | member
        · exact later rule member
        · exact List.mem_singleton.mp member ▸ Ne.symm different
      · exact ⟨rules, [], rfl, by simp⟩
    · rintro ⟨front, back, same, later⟩
      cases back using List.reverseRecOn with
      | nil => exact .inr (List.singleton_inj.mp (List.append_inj' same rfl).2).symm
      | append_singleton back rule =>
        rw [← List.cons_append, ← List.append_assoc] at same
        obtain ⟨rfl, final⟩ := List.append_inj' same rfl
        obtain rfl := List.singleton_inj.mp final
        refine .inl ⟨⟨front, back, rfl, fun rule member => later rule (List.mem_append_left _ member)⟩, ?_⟩
        exact Ne.symm (later last (by simp))

end Latest

section Nested

variable {n : Nat} {Configuration ε : Type}

/-- A number in base 256, the least significant digit first. -/
def littleEndian (bytes : List UInt8) : Nat := bytes.foldr (fun byte rest => byte.toNat + 256 * rest) 0

/-- The first cells as a token. All of them must be known. -/
def plainToken (i : Cells) : Option (BitVec (8 * n) × Cells) :=
  if (i.take n).all Option.isSome ∧ n ≤ i.length then
    some (.ofNat (8 * n) (littleEndian (i.take n).reduceOption), i.drop n)
  else none

private theorem shift_byte (v : Nat) (byte : UInt8) :
    let tok := BitVec.ofNat (8 * n) v
    (if tok ≠ 0 then tok <<< 8 else tok) ||| BitVec.ofNat (8 * n) byte.toNat = .ofNat (8 * n) (256 * v + byte.toNat) := by
  intro tok
  have shifted : (if tok ≠ 0 then tok <<< 8 else tok) = BitVec.ofNat (8 * n) (v <<< 8) := by
    have whole : tok <<< 8 = BitVec.ofNat (8 * n) (v <<< 8) := by
      apply BitVec.eq_of_toNat_eq
      simp only [tok, BitVec.toNat_shiftLeft, BitVec.toNat_ofNat, Nat.shiftLeft_eq, Nat.mod_mul_mod]
    split
    next => exact whole
    next zero =>
      rw [← whole, not_not.mp zero]
      simp
  rw [shifted, ← BitVec.ofNat_or, ← Nat.shiftLeft_add_eq_or_of_lt byte.toNat_lt, Nat.shiftLeft_eq, Nat.mul_comm v]

private theorem readBytes_eq (k v : Nat) (cells : Cells) : readBytes k (BitVec.ofNat (8 * n) v) cells =
    if (cells.take k).all Option.isSome ∧ k ≤ cells.length then
      some (.ofNat (8 * n) ((cells.take k).reduceOption.foldl (fun v byte => 256 * v + byte.toNat) v))
    else none := by
  induction k generalizing v cells with
  | zero => simp [readBytes]
  | succ k ih =>
    cases cells with
    | nil => simp [readBytes]
    | cons cell cells =>
      cases cell with
      | none => simp [readBytes]
      | some byte =>
        rw [readBytes, shift_byte, ih]
        simp

theorem readToken_plain (i : Cells) : readToken (n := n) i = plainToken i := by
  have digits : ∀ bytes : List UInt8, bytes.reverse.foldl (fun v byte => 256 * v + byte.toNat) 0 = littleEndian bytes := by
    intro bytes
    rw [List.foldl_reverse, littleEndian]
    simp only [Nat.add_comm]
  have read := readBytes_eq (n := n) n 0 (i.take n).reverse
  have whole : (i.take n).reverse.take n = (i.take n).reverse := List.take_of_length_le (by simp)
  rw [whole] at read
  rw [readToken, plainToken]
  refine (congrArg (Option.map fun tok => (tok, i.drop n)) read).trans ?_
  simp only [List.reduceOption, List.filterMap_reverse, digits, List.all_reverse, List.length_reverse, List.length_take,
    le_inf_iff, le_refl, true_and]
  split <;> rfl

/-- What is known of a disassembler before it is built. -/
structure Source (n : Nat) (Configuration : Type) where
  rules : List (List (Item n) × Action n Configuration)
  default : Option (Action n Configuration)

def Source.sequences (source : Source n Configuration) : List (List (Rule n) × Action n Configuration) :=
  source.rules.flatMap fun rule => (generate rule.1).map (·, rule.2)

/-- Builds disassemblers, the last one first. -/
def build (sources : List (Source n Configuration)) : Outcome ε (List (Disassembler n Configuration)) :=
  Outcome.each (fun source => newDisassembler source.rules source.default) sources

/-- A rule of a disassembler with as many older ones. -/
def Rule.Known (older : Nat) : Rule n → Prop
  | .terminal _ => True
  | .sub disassembler => disassembler < older

/-- No sequence is empty, and disassemblers use older ones only. -/
def Sound : List (Source n Configuration) → Prop
  | [] => True
  | source :: older => (∀ rule ∈ source.sequences, rule.1 ≠ [] ∧ ∀ r ∈ rule.1, r.Known older.length) ∧ Sound older

/-- The ways a rule matches, given what other disassemblers find. -/
def plainMatches (sub : Nat → Cells → State n Configuration → List (Found n Configuration)) (rule : Rule n)
    (found : Found n Configuration) : List (Found n Configuration) :=
  match rule with
  | .terminal rule => ((plainToken found.2).bind fun read => (rule.matches read.1 found.1).map fun state => (state, read.2)).toList
  | .sub disassembler => sub disassembler found.2 found.1

/-- What disassemblers find when every sequence is matched on its own. -/
def plainSearch : List (Source n Configuration) → Nat → Cells → State n Configuration → List (Found n Configuration)
  | [], _, _, _ => []
  | source :: older, k, i, state =>
    if k = older.length then plainFind (plainMatches (plainSearch older)) (latest source.sequences) (state, i)
    else plainSearch older k i state

/-- Finders that return what the sources find. -/
def FindsPlain (sources : List (Source n Configuration)) (sub : Finder ε n Configuration) : Prop :=
  ∀ k < sources.length, ∀ i state, ∃ found, sub k i state = .returns found ∧ found.Perm (plainSearch sources k i state)

theorem FindsPlain.matches {sources : List (Source n Configuration)} {sub : Finder ε n Configuration} (agrees : FindsPlain sources sub) :
    Matches (Rule.Known sources.length) sub (plainMatches (plainSearch sources)) := by
  intro r known found
  cases r with
  | terminal rule => exact ⟨_, rfl, .of_eq (by rw [readToken_plain]; rfl)⟩
  | sub disassembler => exact agrees disassembler known found.2 found.1

theorem newDisassembler_spec (source : Source n Configuration) {allowed : Rule n → Prop}
    (good : ∀ rule ∈ source.sequences, rule.1 ≠ [] ∧ ∀ r ∈ rule.1, allowed r) :
    ∃ dis words, newDisassembler (ε := ε) source.rules source.default = .returns dis ∧ dis.default = source.default ∧
      Stores allowed dis words (latest source.sequences) := by
  obtain ⟨dis, words, added, stores⟩ := (Stores.new allowed).addAll (ε := ε) good
  refine ⟨{ dis with default := source.default }, words, ?_, rfl, stores.start, stores.spells, stores.sequences, stores.known,
    stores.covered, stores.rules⟩
  rw [Source.sequences] at added
  rw [newDisassembler, added]
  rfl

theorem finder_spec {source : Source n Configuration} {older : List (Source n Configuration)} {dis : Disassembler n Configuration}
    {subs : List (Disassembler n Configuration)} {words : List (List (Rule n))} {fuel : Nat}
    (stores : Stores (Rule.Known older.length) dis words (latest source.sequences)) (length : subs.length = older.length)
    (agrees : FindsPlain (ε := ε) older (Disassembler.finder fuel subs)) (enough : words.length < fuel) :
    FindsPlain (ε := ε) (source :: older) (Disassembler.finder fuel (dis :: subs)) := by
  intro k below i state
  rw [Disassembler.finder, plainSearch, length]
  by_cases newest : k = older.length
  · rw [if_pos newest, if_pos newest]
    exact find_spec stores agrees.matches enough i state
  · rw [if_neg newest, if_neg newest]
    rw [List.length_cons] at below
    exact agrees k (by omega) i state

private theorem build_spec (sources : List (Source n Configuration)) (sound : Sound sources) :
    ∃ subs, build (ε := ε) sources = .returns subs ∧ subs.length = sources.length ∧ ∃ bound, ∀ fuel, bound ≤ fuel →
      FindsPlain (ε := ε) sources (Disassembler.finder fuel subs) := by
  induction sources with
  | nil => exact ⟨[], rfl, rfl, 0, fun fuel _ k below => absurd below (Nat.not_lt_zero k)⟩
  | cons source older ih =>
    obtain ⟨subs, built, length, bound, agrees⟩ := ih sound.2
    obtain ⟨dis, words, added, _, stores⟩ := newDisassembler_spec (ε := ε) source sound.1
    refine ⟨dis :: subs, ?_, by simp [length], max bound (words.length + 1), fun fuel enough => ?_⟩
    · rw [build] at built ⊢
      rw [Outcome.each, added, Outcome.returns_bind, built]
      rfl
    · exact finder_spec stores length (agrees fuel (by omega)) (by omega)

/-- What the default action answers. It gets the first token. -/
def Source.fallback (source : Source n Configuration) (i : Cells) (offset : UInt64) (cfg : Configuration) :
    Option (State n Configuration) := do
  let act ← source.default
  let (tok, _) ← plainToken i
  let (accepted, state) := act { (State.new offset cfg : State n Configuration) with tokens := [tok] }
  if accepted then some state else none

/-- The choice among the states that were found. -/
structure Longest (found : List (Found n Configuration)) (fallback answer : Option (State n Configuration)) : Prop where
  nothing : found = [] → answer = fallback
  longest : found ≠ [] → ∃ best ∈ found, answer = some best.1 ∧ ∀ other ∈ found, other.1.tokens.length ≤ best.1.tokens.length

private theorem nextMatch_spec {dis : Disassembler n Configuration} {sub : Finder ε n Configuration} {fuel : Nat} {i : Cells} {offset : UInt64}
    {cfg : Configuration} {source : Source n Configuration} {found : List (Found n Configuration)}
    (searched : dis.find sub fuel i (.new offset cfg) = .returns found) (same : dis.default = source.default) :
    ∃ answer, dis.nextMatch sub fuel i offset cfg = .returns answer ∧ Longest found (source.fallback i offset cfg) answer := by
  rw [Disassembler.nextMatch, searched, Outcome.returns_bind]
  rcases found with - | ⟨first, - | ⟨second, rest⟩⟩
  · refine ⟨source.fallback i offset cfg, ?_, fun _ => rfl, fun filled => absurd rfl filled⟩
    dsimp only
    rw [same, Source.fallback, readToken_plain]
    cases source.default with
    | none => rfl
    | some act =>
      cases plainToken i with
      | none => rfl
      | some read => rfl
  · refine ⟨some first.1, rfl, fun empty => absurd empty (List.cons_ne_nil _ _), fun _ => ⟨first, List.mem_cons_self, rfl, ?_⟩⟩
    intro other member
    rw [List.mem_singleton.mp member]
  · let most (b a : Found n Configuration) : Bool := decide (a.1.tokens.length ≤ b.1.tokens.length)
    have sorted := @List.pairwise_mergeSort _ most (fun a b c first second => by simp only [most, decide_eq_true_eq] at *; omega)
      (fun a b => by simp only [most, Bool.or_eq_true, decide_eq_true_eq]; omega) (first :: second :: rest)
    have same := List.mergeSort_perm (first :: second :: rest) most
    dsimp only
    cases ranked : (first :: second :: rest).mergeSort most with
    | nil =>
      rw [ranked] at same
      cases same.nil_eq
    | cons best others =>
      rw [ranked] at sorted same
      refine ⟨some best.1, rfl, fun empty => absurd empty (List.cons_ne_nil _ _), fun _ =>
        ⟨best, same.mem_iff.mp List.mem_cons_self, rfl, fun other member => ?_⟩⟩
      rcases List.mem_cons.mp (same.mem_iff.mpr member) with rfl | later
      · exact le_rfl
      · simpa [most] using List.rel_of_pairwise_cons sorted later

/-- The trie of rules equals naive matching. A search returns, up to order, one entry for each sequence of rules that
was added and each way its rules match, if the last action of the sequence accepts. The next match is one of these with
the most tokens, and the default action is called when there is none. -/
theorem search_plain (source : Source n Configuration) (older : List (Source n Configuration)) (sound : Sound (source :: older)) :
    ∃ dis subs, build (ε := ε) (source :: older) = .returns (dis :: subs) ∧ ∃ bound, ∀ fuel, bound ≤ fuel →
      (∀ k ≤ older.length, ∀ i state, ∃ found, Disassembler.finder (ε := ε) fuel (dis :: subs) k i state = .returns found ∧
        found.Perm (plainSearch (source :: older) k i state)) ∧
      ∀ i offset cfg, ∃ answer, dis.nextMatch (Disassembler.finder (ε := ε) fuel subs) fuel i offset cfg = .returns answer ∧
        Longest (plainSearch (source :: older) older.length i (.new offset cfg)) (source.fallback i offset cfg) answer := by
  obtain ⟨subs, built, length, bound, agrees⟩ := build_spec (ε := ε) older sound.2
  obtain ⟨dis, words, added, same, stores⟩ := newDisassembler_spec (ε := ε) source sound.1
  refine ⟨dis, subs, ?_, max bound (words.length + 1), fun fuel enough => ⟨?_, fun i offset cfg => ?_⟩⟩
  · rw [build] at built ⊢
    rw [Outcome.each, added, Outcome.returns_bind, built]
    rfl
  · intro k below i state
    exact finder_spec stores length (agrees fuel (by omega)) (by omega) k (by simpa using Nat.lt_succ_of_le below) i state
  · obtain ⟨found, searched, equal⟩ := find_spec stores (agrees fuel (by omega)).matches (by omega : words.length < fuel) i (.new offset cfg)
    obtain ⟨answer, matched, choice⟩ := nextMatch_spec searched same
    refine ⟨answer, matched, ?_, ?_⟩
    · rw [plainSearch, if_pos rfl]
      exact fun empty => choice.nothing (empty ▸ equal).eq_nil
    · rw [plainSearch, if_pos rfl]
      intro filled
      obtain ⟨best, member, chosen, most⟩ := choice.longest fun empty => filled (empty ▸ equal).nil_eq.symm
      exact ⟨best, equal.mem_iff.mp member, chosen, fun other listed => most other (equal.mem_iff.mpr listed)⟩

/-- An instruction with an optional prefix, which is a disassembler of its own. -/
theorem search_plain_prefixed :
    let accepting : Action 1 Unit := fun state => (true, state)
    let prefixes : Source 1 Unit := ⟨[([.rule (.terminal ⟨0xff, 0xf0, []⟩)], accepting)], none⟩
    let main : Source 1 Unit :=
      ⟨[([.optional (.sub 0), .rule (.terminal ⟨0xff, 0x90, []⟩)], accepting)], some accepting⟩
    ∃ dis subs, build (ε := Empty) [main, prefixes] = .returns (dis :: subs) ∧ ∃ bound, ∀ fuel, bound ≤ fuel →
      (∀ k ≤ 1, ∀ i state, ∃ found, Disassembler.finder (ε := Empty) fuel (dis :: subs) k i state = .returns found ∧
        found.Perm (plainSearch [main, prefixes] k i state)) ∧
      ∀ i offset cfg, ∃ answer, dis.nextMatch (Disassembler.finder (ε := Empty) fuel subs) fuel i offset cfg = .returns answer ∧
        Longest (plainSearch [main, prefixes] 1 i (.new offset cfg)) (main.fallback i offset cfg) answer := by
  intro accepting prefixes main
  apply search_plain
  simp [main, prefixes, Sound, Source.sequences, generate, Item.push, Rule.Known]

end Nested
end Panopticon.Disassembly
