import Panopticon.Function
import Panopticon.Library.Grouping

/-! Connecting the jumps. Each jump adds at most one arc and one vertex, and the
vertices it adds are unresolved targets. As long as none of these is a constant,
the arcs are exactly the jumps that leave the end of some placed vertex. -/

open Panopticon.Function

namespace Panopticon.Proofs.Connect
open Library AdjacencyList

abbrev Jump := UInt64 × Rvalue × Guard
abbrev Arc := Guard × Nat × Nat

/-- The jumps of a table in the order it is enumerated. -/
abbrev jumpList (bySource : List (UInt64 × List (Rvalue × Guard))) : List Jump := flatten bySource

theorem mem_jumpList (order : Enumeration (UInt64 × List (Rvalue × Guard))) (bySource : JumpTable) (origin : UInt64)
    (tgt : Rvalue) (gu : Guard) :
    (origin, tgt, gu) ∈ jumpList (order.list bySource.toList) ↔ (tgt, gu) ∈ valuesAt bySource origin := by
  simp only [jumpList, flatten, List.mem_flatMap, Enumeration.mem_list, List.mem_map, Prod.exists, Prod.mk.injEq,
    Std.ExtTreeMap.mem_toList_iff_getElem?_eq_some, valuesAt]
  constructor
  · rintro ⟨origin, jumps, found, tgt, gu, member, rfl, rfl, rfl⟩
    simpa [found] using member
  · intro member
    cases found : bySource[origin]? with
    | none => simp [found] at member
    | some jumps => exact ⟨origin, jumps, found, tgt, gu, by simpa [found] using member, rfl, rfl, rfl⟩

/-- What connecting one jump can do to the vertices and arcs of a graph. -/
inductive Connects (origin : UInt64) (tgt : Rvalue) (gu : Guard) (labels : List ControlFlowTarget) (arcs : List Arc) :
    List ControlFlowTarget → List Arc → Prop where
  | joined {src dst from_ into} (source : labels[src]? = some from_) (leaving : leaves origin from_ = true)
      (target : labels[dst]? = some into) (entering : enters tgt into = true) :
      Connects origin tgt gu labels arcs labels (arcs ++ [(gu, src, dst)])
  | newSource {dst into} (absent : ∀ lb ∈ labels, leaves origin lb = false)
      (target : labels[dst]? = some into) (entering : enters tgt into = true) :
      Connects origin tgt gu labels arcs (labels ++ [.unresolved (.newU64 origin)])
        (arcs ++ [(gu, labels.length, dst)])
  | newTarget {src from_} (source : labels[src]? = some from_) (leaving : leaves origin from_ = true)
      (absent : ∀ lb ∈ labels, enters tgt lb = false) :
      Connects origin tgt gu labels arcs (labels ++ [.unresolved tgt]) (arcs ++ [(gu, src, labels.length)])
  | skipped (reason : (∀ lb ∈ labels, leaves origin lb = false) ∨
      (∀ lb ∈ labels, enters tgt lb = false) ∧ tgt.constant?.isSome) :
      Connects origin tgt gu labels arcs labels arcs

section
variable {g : ControlFlowGraph} {labels : List ControlFlowTarget} {arcs : List Arc}

private theorem findVertex_absent (lists : g.Lists labels arcs) (order : Enumeration Nat) (p : ControlFlowTarget → Bool)
    (absent : g.findVertex order p = none) (lb : ControlFlowTarget) (member : lb ∈ labels) : p lb = false := by
  obtain ⟨v, found⟩ := List.mem_iff_getElem?.mp member
  exact (g.findVertex_eq_none order p).mp absent v lb (by rw [lists.vertexLabel, found])

private theorem findVertex_present (lists : g.Lists labels arcs) {order : Enumeration Nat} {p : ControlFlowTarget → Bool}
    {v : Nat} (found : g.findVertex order p = some v) : ∃ lb, labels[v]? = some lb ∧ p lb = true := by
  simpa only [lists.vertexLabel] using AdjacencyList.findVertex_some found

private theorem inside {v : Nat} {lb : ControlFlowTarget} (label : labels[v]? = some lb) : v < labels.length :=
  (List.getElem?_eq_some_iff.mp label).1

private theorem connectJump_connects (lists : g.Lists labels arcs) (order : Enumeration Nat) (origin : UInt64) (tgt : Rvalue)
    (gu : Guard) :
    ∃ labels' arcs', Connects origin tgt gu labels arcs labels' arcs' ∧
      (connectJump order origin g (tgt, gu)).Lists labels' arcs' := by
  cases source : g.findVertex order (leaves origin) with
  | none =>
    have noSource := findVertex_absent lists order _ source
    cases target : g.findVertex order (enters tgt) with
    | none =>
      refine ⟨_, _, .skipped (.inl noSource), ?_⟩
      simpa only [connectJump, source, target] using lists
    | some dst =>
      obtain ⟨into, label, entering⟩ := findVertex_present lists target
      simp only [connectJump, source, target]
      split
      · exact ⟨_, _, .skipped (.inl noSource), lists⟩
      · refine ⟨_, _, .newSource noSource label entering, ?_⟩
        rw [lists.addVertex_ref]
        exact (lists.addVertex _).addEdge gu (by simp) (by simpa using Nat.lt_succ_of_lt (inside label))
  | some src =>
    obtain ⟨from_, label, leaving⟩ := findVertex_present lists source
    cases target : g.findVertex order (enters tgt) with
    | none =>
      have noTarget := findVertex_absent lists order _ target
      simp only [connectJump, source, target]
      split
      next covered =>
        have constant : tgt.constant?.isSome := by
          cases value : tgt.constant? <;> simp_all
        exact ⟨_, _, .skipped (.inr ⟨noTarget, constant⟩), lists⟩
      next =>
        refine ⟨_, _, .newTarget label leaving noTarget, ?_⟩
        rw [lists.addVertex_ref]
        exact (lists.addVertex _).addEdge gu (by simpa using Nat.lt_succ_of_lt (inside label)) (by simp)
    | some dst =>
      obtain ⟨into, label', entering⟩ := findVertex_present lists target
      refine ⟨_, _, .joined label leaving label' entering, ?_⟩
      simpa only [connectJump, source, target] using lists.addEdge gu (inside label) (inside label')

end

/-- A whole list of jumps connected to the vertices placed by the sweep. -/
inductive ConnectsAll (placed : List ControlFlowTarget) : List Jump → List ControlFlowTarget → List Arc → Prop where
  | nil : ConnectsAll placed [] placed []
  | snoc {done origin tgt gu labels arcs labels' arcs'} (run : ConnectsAll placed done labels arcs)
      (step : Connects origin tgt gu labels arcs labels' arcs') :
      ConnectsAll placed (done ++ [(origin, tgt, gu)]) labels' arcs'

private theorem foldl_connects {placed : List ControlFlowTarget} (order : Enumeration Nat) (jumps : List Jump)
    {done : List Jump} {g : ControlFlowGraph} {labels : List ControlFlowTarget} {arcs : List Arc}
    (lists : g.Lists labels arcs) (run : ConnectsAll placed done labels arcs) :
    ∃ labels' arcs', ConnectsAll placed (done ++ jumps) labels' arcs' ∧
      (jumps.foldl (fun ret jump => connectJump order jump.1 ret jump.2) g).Lists labels' arcs' := by
  induction jumps generalizing done g labels arcs with
  | nil => exact ⟨labels, arcs, by simpa using run, lists⟩
  | cons jump jumps ih =>
    obtain ⟨origin, tgt, gu⟩ := jump
    obtain ⟨labels', arcs', step, lists'⟩ := connectJump_connects lists order origin tgt gu
    obtain ⟨labels'', arcs'', run'', lists''⟩ := ih lists' (run.snoc step)
    exact ⟨labels'', arcs'', by simpa using run'', lists''⟩

theorem connectAll_connects {g : ControlFlowGraph} {placed : List ControlFlowTarget} (lists : g.Lists placed [])
    (order : Enumeration Nat) (bySource : List (UInt64 × List (Rvalue × Guard))) :
    ∃ labels arcs, ConnectsAll placed (jumpList bySource) labels arcs ∧
      (connectAll order g bySource).Lists labels arcs := by
  have flat : connectAll order g bySource =
      (jumpList bySource).foldl (fun ret jump => connectJump order jump.1 ret jump.2) g := by
    unfold connectAll jumpList flatten
    rw [List.foldl_flatMap]
    simp only [List.foldl_map]
  obtain ⟨labels, arcs, run, lists'⟩ := foldl_connects order (jumpList bySource) lists .nil
  exact ⟨labels, arcs, by simpa using run, flat ▸ lists'⟩

section
variable {placed labels : List ControlFlowTarget} {jumps : List Jump} {arcs : List Arc}

theorem ConnectsAll.grows (run : ConnectsAll placed jumps labels arcs) :
    ∃ extras, labels = placed ++ extras ∧ ∀ lb ∈ extras, ∃ target, lb = .unresolved target := by
  induction run with
  | nil => exact ⟨[], by simp⟩
  | snoc _ step ih =>
    obtain ⟨extras, rfl, unresolved⟩ := ih
    cases step with
    | joined | skipped => exact ⟨extras, rfl, unresolved⟩
    | newSource | newTarget =>
      refine ⟨extras ++ [_], List.append_assoc _ _ _, ?_⟩
      intro lb member
      rcases List.mem_append.mp member with member | member
      · exact unresolved lb member
      · exact ⟨_, List.mem_singleton.mp member⟩

private theorem kept {labels : List ControlFlowTarget} {v : Nat} {lb : ControlFlowTarget} (label : labels[v]? = some lb)
    (more : List ControlFlowTarget) : (labels ++ more)[v]? = some lb := by
  rw [List.getElem?_append_left (inside label), label]

theorem ConnectsAll.arc (run : ConnectsAll placed jumps labels arcs) {gu : Guard} {src dst : Nat}
    (member : (gu, src, dst) ∈ arcs) :
    ∃ origin tgt from_ into, (origin, tgt, gu) ∈ jumps ∧ labels[src]? = some from_ ∧ leaves origin from_ = true ∧
      labels[dst]? = some into ∧ enters tgt into = true := by
  induction run with
  | nil => cases member
  | @snoc done origin tgt gu' labels arcs labels' arcs' run step ih =>
    have old (known : (gu, src, dst) ∈ arcs) (more : List ControlFlowTarget) :
        ∃ origin' tgt' from_ into, (origin', tgt', gu) ∈ done ++ [(origin, tgt, gu')] ∧
          (labels ++ more)[src]? = some from_ ∧ leaves origin' from_ = true ∧
          (labels ++ more)[dst]? = some into ∧ enters tgt' into = true := by
      obtain ⟨origin', tgt', from_, into, jump, source, leaving, target, entering⟩ := ih known
      exact ⟨origin', tgt', from_, into, List.mem_append_left _ jump, kept source _, leaving, kept target _, entering⟩
    cases step with
    | skipped => simpa using old member []
    | joined source leaving target entering =>
      rcases List.mem_append.mp member with member | member
      · simpa using old member []
      · cases List.mem_singleton.mp member
        exact ⟨origin, tgt, _, _, by simp, source, leaving, target, entering⟩
    | newSource absent target entering =>
      rcases List.mem_append.mp member with member | member
      · exact old member _
      · cases List.mem_singleton.mp member
        exact ⟨origin, tgt, .unresolved (.newU64 origin), _, by simp, by simp, by simp [leaves, Rvalue.newU64],
          kept target _, entering⟩
    | newTarget source leaving absent =>
      rcases List.mem_append.mp member with member | member
      · exact old member _
      · cases List.mem_singleton.mp member
        exact ⟨origin, tgt, _, .unresolved tgt, by simp, kept source _, leaving, by simp, by simp [enters]⟩

/-- An unresolved vertex is an origin without a vertex to leave or a target without one to enter. -/
theorem ConnectsAll.unresolved (run : ConnectsAll placed jumps labels arcs) {target : Rvalue}
    (member : .unresolved target ∈ labels) (fresh : .unresolved target ∉ placed) :
    ∃ origin tgt gu, (origin, tgt, gu) ∈ jumps ∧
      (target = .newU64 origin ∧ (∀ lb ∈ placed, leaves origin lb = false) ∨
        target = tgt ∧ ∀ lb ∈ placed, enters tgt lb = false) := by
  induction run with
  | nil => exact absurd member fresh
  | @snoc done origin tgt gu labels arcs labels' arcs' run step ih =>
    have old (known : .unresolved target ∈ labels) :
        ∃ origin' tgt' gu', (origin', tgt', gu') ∈ done ++ [(origin, tgt, gu)] ∧
          (target = .newU64 origin' ∧ (∀ lb ∈ placed, leaves origin' lb = false) ∨
            target = tgt' ∧ ∀ lb ∈ placed, enters tgt' lb = false) := by
      obtain ⟨origin', tgt', gu', jump, reason⟩ := ih known
      exact ⟨origin', tgt', gu', List.mem_append_left _ jump, reason⟩
    obtain ⟨extras, rfl, -⟩ := run.grows
    cases step with
    | skipped | joined => exact old member
    | newSource absent _ _ =>
      rcases List.mem_append.mp member with member | member
      · exact old member
      · cases List.mem_singleton.mp member
        exact ⟨origin, tgt, gu, by simp, .inl ⟨rfl, fun lb inside => absent lb (List.mem_append_left _ inside)⟩⟩
    | newTarget _ _ absent =>
      rcases List.mem_append.mp member with member | member
      · exact old member
      · cases List.mem_singleton.mp member
        exact ⟨origin, target, gu, by simp, .inr ⟨rfl, fun lb inside => absent lb (List.mem_append_left _ inside)⟩⟩

/-- The vertices placed by the sweep fit a list of jumps. -/
structure Fits (placed : List ControlFlowTarget) (jumps : List Jump) : Prop where
  solid : ∀ target, .unresolved target ∉ placed
  leaving : ∀ origin first second, first ∈ placed → second ∈ placed → leaves origin first = true →
    leaves origin second = true → first = second
  entering : ∀ value size first second, first ∈ placed → second ∈ placed →
    enters (.constant value size) first = true → enters (.constant value size) second = true → first = second
  /-- a constant jump either joins two vertices or falls through inside one -/
  matched : ∀ origin value size gu, (origin, .constant value size, gu) ∈ jumps →
    ((∃ lb ∈ placed, leaves origin lb = true) ↔ ∃ lb ∈ placed, enters (.constant value size) lb = true)

def NoConstants (labels : List ControlFlowTarget) : Prop :=
  ∀ value size, .unresolved (.constant value size) ∉ labels

theorem NoConstants.leaves {extras : List ControlFlowTarget} (none : NoConstants (placed ++ extras))
    (unresolved : ∀ lb ∈ extras, ∃ target, lb = .unresolved target) {origin : UInt64} {lb : ControlFlowTarget}
    (member : lb ∈ placed ++ extras) (leaving : leaves origin lb = true) : lb ∈ placed := by
  refine (List.mem_append.mp member).resolve_right fun extra => ?_
  obtain ⟨target, rfl⟩ := unresolved lb extra
  cases target with
  | constant value size => exact none value size member
  | undefined | var _ _ _ _ => cases leaving

theorem NoConstants.enters {extras : List ControlFlowTarget} (none : NoConstants (placed ++ extras))
    (unresolved : ∀ lb ∈ extras, ∃ target, lb = .unresolved target) {value : UInt64} {size : Nat}
    {lb : ControlFlowTarget} (member : lb ∈ placed ++ extras) (entering : enters (.constant value size) lb = true) :
    lb ∈ placed := by
  refine (List.mem_append.mp member).resolve_right fun extra => ?_
  obtain ⟨target, rfl⟩ := unresolved lb extra
  cases (beq_iff_eq.mp entering : target = .constant value size)
  exact none value size member

theorem enters_nonconstant {tgt : Rvalue} (varying : tgt.constant? = none) {lb : ControlFlowTarget}
    (entering : Function.enters tgt lb = true) : lb = .unresolved tgt := by
  cases lb with
  | unresolved target => rw [(beq_iff_eq.mp entering : target = tgt)]
  | resolved bb => cases tgt <;> simp_all [Function.enters, Rvalue.constant?]
  | failed pos msg => cases tgt <;> simp_all [Function.enters, Rvalue.constant?]

/-- The first unresolved constant is the origin of a jump to a target that is not constant. -/
theorem Connects.first_constant {labels' : List ControlFlowTarget} {arcs' : List Arc} {origin : UInt64} {tgt : Rvalue}
    {gu : Guard} {extras : List ControlFlowTarget} (fits : Fits placed jumps) (known : (origin, tgt, gu) ∈ jumps)
    (unresolved : ∀ lb ∈ extras, ∃ target, lb = .unresolved target) (none : NoConstants (placed ++ extras))
    (step : Connects origin tgt gu (placed ++ extras) arcs labels' arcs') :
    NoConstants labels' ∨ tgt.constant? = Option.none ∧ (∀ lb ∈ placed, leaves origin lb = false) ∧
      ∃ dst, (gu, (placed ++ extras).length, dst) ∈ arcs' ∧ labels'[dst]? = some (.unresolved tgt) ∧
        labels'[(placed ++ extras).length]? = some (.unresolved (.newU64 origin)) := by
  have without (lb : ControlFlowTarget) (absent : ∀ other ∈ placed ++ extras, leaves origin other = false) :
      lb ∈ placed → leaves origin lb = false := fun member => absent lb (List.mem_append_left _ member)
  cases step with
  | joined | skipped => exact .inl none
  | @newSource dst into absent target entering =>
    right
    cases fixed : tgt.constant? with
    | some _ =>
      exfalso
      cases tgt with
      | constant value size =>
        have member := none.enters unresolved (List.mem_of_getElem? target) entering
        obtain ⟨lb, inside, leaving⟩ := (fits.matched origin value size gu known).mpr ⟨into, member, entering⟩
        simp [without lb absent inside] at leaving
      | undefined | var _ _ _ _ => cases fixed
    | none =>
      refine ⟨rfl, fun lb => without lb absent, dst, by simp, ?_, by simp⟩
      rw [← enters_nonconstant fixed entering]
      exact kept target _
  | @newTarget src from_ source leaving absent =>
    left
    intro value size member
    rcases List.mem_append.mp member with member | member
    · exact none value size member
    · cases List.mem_singleton.mp member
      have inside := none.leaves unresolved (List.mem_of_getElem? source) leaving
      obtain ⟨lb, placed', entering⟩ := (fits.matched origin value size gu known).mp ⟨from_, inside, leaving⟩
      simp [absent lb (List.mem_append_left _ placed')] at entering

theorem Connects.grows {labels' : List ControlFlowTarget} {arcs' : List Arc} {origin : UInt64} {tgt : Rvalue}
    {gu : Guard} (step : Connects origin tgt gu labels arcs labels' arcs') :
    ∃ more moreArcs, labels' = labels ++ more ∧ arcs' = arcs ++ moreArcs := by
  cases step with
  | joined => exact ⟨[], _, by simp, rfl⟩
  | skipped => exact ⟨[], [], by simp, by simp⟩
  | newSource | newTarget => exact ⟨_, _, rfl, rfl⟩

theorem ConnectsAll.constants {all : List Jump} (fits : Fits placed all) (known : jumps ⊆ all)
    (run : ConnectsAll placed jumps labels arcs) :
    NoConstants labels ∨ ∃ origin tgt gu src dst, (origin, tgt, gu) ∈ jumps ∧ tgt.constant? = none ∧
      (∀ lb ∈ placed, leaves origin lb = false) ∧ (gu, src, dst) ∈ arcs ∧
      labels[src]? = some (.unresolved (.newU64 origin)) ∧ labels[dst]? = some (.unresolved tgt) := by
  induction run with
  | nil => exact .inl fun value size => fits.solid _
  | @snoc done origin tgt gu labels arcs labels' arcs' run step ih =>
    obtain ⟨more, moreArcs, rfl, rfl⟩ := step.grows
    rcases ih fun jump member => known (List.mem_append_left _ member) with none | found
    · obtain ⟨extras, rfl, unresolved⟩ := run.grows
      rcases step.first_constant fits (known (by simp)) unresolved none with none | ⟨varying, outside, dst, arc, into, from_⟩
      · exact .inl none
      · exact .inr ⟨origin, tgt, gu, _, dst, by simp, varying, outside, arc, from_, into⟩
    · obtain ⟨origin', tgt', gu', src, dst, jump, varying, outside, arc, from_, into⟩ := found
      exact .inr ⟨origin', tgt', gu', src, dst, List.mem_append_left _ jump, varying, outside,
        List.mem_append_left _ arc, kept from_ _, kept into _⟩

def destination (placed : List ControlFlowTarget) (tgt : Rvalue) : ControlFlowTarget :=
  (placed.find? (enters tgt)).getD (.unresolved tgt)

/-- The arc a jump should become, with labels for its ends; none when it falls through. -/
def expected (placed : List ControlFlowTarget) (jump : Jump) :
    Option (Guard × Option ControlFlowTarget × Option ControlFlowTarget) :=
  (placed.find? (leaves jump.1)).map fun from_ => (jump.2.2, some from_, some (destination placed jump.2.1))

theorem Fits.find_leaves {all : List Jump} (fits : Fits placed all) {origin : UInt64} {lb : ControlFlowTarget}
    (member : lb ∈ placed) (leaving : leaves origin lb = true) : placed.find? (leaves origin) = some lb := by
  cases found : placed.find? (leaves origin) with
  | none => simp [List.find?_eq_none.mp found lb member] at leaving
  | some other =>
    rw [fits.leaving origin other lb (List.mem_of_find?_eq_some found) member (List.find?_some found) leaving]

theorem Fits.destination_constant {all : List Jump} (fits : Fits placed all) {value : UInt64} {size : Nat}
    {lb : ControlFlowTarget} (member : lb ∈ placed) (entering : enters (.constant value size) lb = true) :
    destination placed (.constant value size) = lb := by
  cases found : placed.find? (enters (.constant value size)) with
  | none => simp [List.find?_eq_none.mp found lb member] at entering
  | some other =>
    rw [destination, found, Option.getD_some,
      fits.entering value size other lb (List.mem_of_find?_eq_some found) member (List.find?_some found) entering]

theorem Fits.destination_nonconstant {all : List Jump} (fits : Fits placed all) {tgt : Rvalue}
    (varying : tgt.constant? = none) : destination placed tgt = .unresolved tgt := by
  have absent : placed.find? (enters tgt) = none := by
    rw [List.find?_eq_none]
    intro lb member entering
    rw [enters_nonconstant varying entering] at member
    exact fits.solid tgt member
  rw [destination, absent, Option.getD_none]

theorem Fits.destination_enters {all : List Jump} (fits : Fits placed all) {origin : UInt64} {tgt : Rvalue} {gu : Guard}
    (known : (origin, tgt, gu) ∈ all) {from_ : ControlFlowTarget} (member : from_ ∈ placed)
    (leaving : leaves origin from_ = true) : enters tgt (destination placed tgt) = true := by
  cases tgt with
  | constant value size =>
    obtain ⟨into, inside, entering⟩ := (fits.matched origin value size gu known).mp ⟨from_, member, leaving⟩
    rwa [fits.destination_constant inside entering]
  | undefined | var _ _ _ _ =>
    rw [fits.destination_nonconstant rfl]
    exact beq_self_eq_true _

theorem Connects.inner {labels' : List ControlFlowTarget} {arcs' : List Arc} {origin : UInt64} {tgt : Rvalue}
    {gu : Guard} {extras : List ControlFlowTarget} (unresolved : ∀ lb ∈ extras, ∃ target, lb = .unresolved target)
    (none : NoConstants labels') (step : Connects origin tgt gu (placed ++ extras) arcs labels' arcs')
    (inner : ∀ lb ∈ placed, leaves origin lb = false) : labels' = placed ++ extras ∧ arcs' = arcs := by
  have absent (earlier : NoConstants (placed ++ extras)) {src : Nat} {from_ : ControlFlowTarget}
      (source : (placed ++ extras)[src]? = some from_) (leaving : leaves origin from_ = true) : False := by
    have member := earlier.leaves unresolved (List.mem_of_getElem? source) leaving
    simp [inner from_ member] at leaving
  cases step with
  | skipped => exact ⟨rfl, rfl⟩
  | joined source leaving _ _ => exact (absent none source leaving).elim
  | newSource => exact absurd (by simp [Rvalue.newU64]) (none origin 64)
  | newTarget source leaving _ =>
    exact (absent (fun value size member => none value size (List.mem_append_left _ member)) source leaving).elim

theorem Connects.outer {all : List Jump} {labels' : List ControlFlowTarget} {arcs' : List Arc} {origin : UInt64}
    {tgt : Rvalue} {gu : Guard} {extras : List ControlFlowTarget} {from_ : ControlFlowTarget} (fits : Fits placed all)
    (known : (origin, tgt, gu) ∈ all) (unresolved : ∀ lb ∈ extras, ∃ target, lb = .unresolved target)
    (none : NoConstants labels') (step : Connects origin tgt gu (placed ++ extras) arcs labels' arcs')
    (member : from_ ∈ placed) (leaving : leaves origin from_ = true) :
    (∃ src dst, arcs' = arcs ++ [(gu, src, dst)] ∧ labels'[src]? = some from_ ∧
      labels'[dst]? = some (destination placed tgt)) ∧
    (labels' = placed ++ extras ∧ (tgt.constant? = Option.none → .unresolved tgt ∈ extras) ∨
      labels' = placed ++ (extras ++ [.unresolved tgt]) ∧ tgt.constant? = Option.none ∧
        .unresolved tgt ∉ extras) := by
  have earlier : NoConstants (placed ++ extras) := by
    obtain ⟨more, moreArcs, rfl, -⟩ := step.grows
    exact fun value size inside => none value size (List.mem_append_left _ inside)
  have source {src : Nat} {other : ControlFlowTarget} (label : (placed ++ extras)[src]? = some other)
      (leaving' : leaves origin other = true) : other = from_ :=
    fits.leaving origin other from_ (earlier.leaves unresolved (List.mem_of_getElem? label) leaving') member
      leaving' leaving
  cases fixed : tgt.constant? with
  | some value =>
    cases tgt with
    | undefined | var _ _ _ _ => cases fixed
    | constant value size =>
      obtain ⟨into, inside, entering⟩ := (fits.matched origin value size gu known).mp ⟨from_, member, leaving⟩
      have target := fits.destination_constant inside entering
      cases step with
      | joined label leaving' label' entering' =>
        have same := fits.entering value size _ into
          (earlier.enters unresolved (List.mem_of_getElem? label') entering') inside entering' entering
        refine ⟨⟨_, _, rfl, ?_, ?_⟩, .inl ⟨rfl, by simp⟩⟩
        · rw [label, source label leaving']
        · rw [label', same, target]
      | newSource absent _ _ => simp [absent from_ (List.mem_append_left _ member)] at leaving
      | newTarget _ _ absent => simp [absent into (List.mem_append_left _ inside)] at entering
      | skipped reason =>
        rcases reason with absent | ⟨absent, -⟩
        · simp [absent from_ (List.mem_append_left _ member)] at leaving
        · simp [absent into (List.mem_append_left _ inside)] at entering
  | none =>
    have target := fits.destination_nonconstant fixed
    cases step with
    | joined label leaving' label' entering' =>
      have same := enters_nonconstant fixed entering'
      subst same
      refine ⟨⟨_, _, rfl, ?_, ?_⟩, .inl ⟨rfl, fun _ => ?_⟩⟩
      · rw [label, source label leaving']
      · rw [label', target]
      · exact (List.mem_append.mp (List.mem_of_getElem? label')).resolve_left (fits.solid tgt)
    | newSource absent _ _ => simp [absent from_ (List.mem_append_left _ member)] at leaving
    | newTarget label leaving' absent =>
      refine ⟨⟨_, _, rfl, ?_, ?_⟩, .inr ⟨by simp, rfl, fun inside => ?_⟩⟩
      · rw [kept label, source label leaving']
      · simp [target]
      · have entering := absent (.unresolved tgt) (List.mem_append_right _ inside)
        simp [enters] at entering
    | skipped reason =>
      rcases reason with absent | ⟨-, constant⟩
      · simp [absent from_ (List.mem_append_left _ member)] at leaving
      · simp [fixed] at constant

private theorem view_append (more : List ControlFlowTarget)
    (inside : ∀ arc ∈ arcs, arc.2.1 < labels.length ∧ arc.2.2 < labels.length) :
    view (labels ++ more) arcs = view labels arcs := by
  apply List.map_congr_left
  intro arc member
  rw [List.getElem?_append_left (inside arc member).1, List.getElem?_append_left (inside arc member).2]

theorem ConnectsAll.inside (run : ConnectsAll placed jumps labels arcs) :
    ∀ arc ∈ arcs, arc.2.1 < labels.length ∧ arc.2.2 < labels.length := by
  rintro ⟨gu, src, dst⟩ member
  obtain ⟨_, _, from_, into, _, source, _, target, _⟩ := run.arc member
  exact ⟨Connect.inside source, Connect.inside target⟩

/-- Without unresolved constants, the arcs are the jumps that leave a placed vertex and
the additional vertices are the other targets of these jumps. -/
theorem ConnectsAll.exact {all : List Jump} (fits : Fits placed all) (known : jumps ⊆ all)
    (run : ConnectsAll placed jumps labels arcs) (none : NoConstants labels) :
    view labels arcs = jumps.filterMap (expected placed) ∧ ∃ extras, labels = placed ++ extras ∧ extras.Nodup ∧
      ∀ lb, lb ∈ extras ↔ ∃ origin tgt gu, lb = .unresolved tgt ∧ tgt.constant? = Option.none ∧
        (origin, tgt, gu) ∈ jumps ∧ ∃ from_ ∈ placed, leaves origin from_ = true := by
  induction run with
  | nil => exact ⟨rfl, [], by simp⟩
  | @snoc done origin tgt gu labels arcs labels' arcs' run step ih =>
    have earlier : NoConstants labels := by
      obtain ⟨more, moreArcs, rfl, -⟩ := step.grows
      exact fun value size member => none value size (List.mem_append_left _ member)
    obtain ⟨viewed, extras, rfl, nodup, listed⟩ := ih (fun jump member => known (List.mem_append_left _ member)) earlier
    have unresolved : ∀ lb ∈ extras, ∃ target, lb = .unresolved target := by
      intro lb member
      obtain ⟨_, target, _, same, _⟩ := (listed lb).mp member
      exact ⟨target, same⟩
    rw [List.filterMap_append]
    by_cases outer : ∃ from_ ∈ placed, leaves origin from_ = true
    · obtain ⟨from_, member, leaving⟩ := outer
      have become : [(origin, tgt, gu)].filterMap (expected placed) =
          [(gu, some from_, some (destination placed tgt))] := by
        simp [expected, fits.find_leaves member leaving]
      obtain ⟨⟨src, dst, rfl, source, target⟩, labels'⟩ :=
        step.outer fits (known (by simp)) unresolved none member leaving
      rw [become, ← viewed]
      rcases labels' with ⟨rfl, present⟩ | ⟨rfl, varying, fresh⟩
      · refine ⟨by simp [view, source, target], extras, rfl, nodup, ?_⟩
        intro lb
        rw [listed]
        constructor
        · rintro ⟨origin', tgt', gu', same, varying, jump, left⟩
          exact ⟨origin', tgt', gu', same, varying, List.mem_append_left _ jump, left⟩
        · rintro ⟨origin', tgt', gu', rfl, varying, jump, left⟩
          rcases List.mem_append.mp jump with jump | jump
          · exact ⟨origin', tgt', gu', rfl, varying, jump, left⟩
          · cases List.mem_singleton.mp jump
            exact (listed _).mp (present varying)
      · have old := view_append [.unresolved tgt] run.inside
        rw [List.append_assoc] at old
        refine ⟨?_, extras ++ [.unresolved tgt], rfl, ?_, ?_⟩
        · rw [← old]
          simp only [view, List.map_append, List.map_cons, List.map_nil, source, target]
        · rw [List.nodup_append]
          refine ⟨nodup, by simp, ?_⟩
          intro lb member lb' member'
          cases List.mem_singleton.mp member'
          rintro rfl
          exact fresh member
        · intro lb
          rw [List.mem_append, listed, List.mem_singleton]
          constructor
          · rintro (⟨origin', tgt', gu', same, varying, jump, left⟩ | rfl)
            · exact ⟨origin', tgt', gu', same, varying, List.mem_append_left _ jump, left⟩
            · exact ⟨origin, tgt, gu, rfl, varying, by simp, from_, member, leaving⟩
          · rintro ⟨origin', tgt', gu', rfl, varying, jump, left⟩
            rcases List.mem_append.mp jump with jump | jump
            · exact .inl ⟨origin', tgt', gu', rfl, varying, jump, left⟩
            · cases List.mem_singleton.mp jump
              exact .inr rfl
    · have inner : ∀ lb ∈ placed, leaves origin lb = false := by simpa using outer
      have falls : [(origin, tgt, gu)].filterMap (expected placed) = [] := by
        have absent : placed.find? (leaves origin) = Option.none := by simpa using inner
        simp [expected, absent]
      obtain ⟨rfl, rfl⟩ := step.inner unresolved none inner
      rw [falls, List.append_nil]
      refine ⟨viewed, extras, rfl, nodup, ?_⟩
      intro lb
      rw [listed]
      constructor
      · rintro ⟨origin', tgt', gu', same, varying, jump, left⟩
        exact ⟨origin', tgt', gu', same, varying, List.mem_append_left _ jump, left⟩
      · rintro ⟨origin', tgt', gu', rfl, varying, jump, left⟩
        rcases List.mem_append.mp jump with jump | jump
        · exact ⟨origin', tgt', gu', rfl, varying, jump, left⟩
        · cases List.mem_singleton.mp jump
          exact absurd left outer

end
end Panopticon.Proofs.Connect
